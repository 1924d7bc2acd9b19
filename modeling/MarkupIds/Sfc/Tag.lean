import MarkupIds.Sfc.Attribute

/-!
# Opening tags in templates
-/

namespace MarkupIds.Sfc

/-- An opening tag on one line, from `<` to `>`. -/
structure OpenTag where
  name : Text
  attributes : List Written := []
  /-- Blanks in front of the end of the tag. -/
  blanks : Text := []
  selfClosing : Bool := false
deriving DecidableEq, Repr

namespace OpenTag

def attributeText (t : OpenTag) : Text :=
  t.attributes.flatMap Written.render

def render (t : OpenTag) : Text :=
  '<' :: t.name ++ t.attributeText ++ t.blanks ++ (if t.selfClosing then ['/', '>'] else ['>'])

end OpenTag

def isTagChar (c : Char) : Bool :=
  Text.isAsciiLetter c || Text.isAsciiDigit c || c == '-'

/-- The opening tag at the head of `cs` and what follows it. -/
def openTag? (cs : Text) : Option (OpenTag × Text) :=
  match cs with
  | '<' :: c :: rest =>
    if Text.isAsciiLetter c then
      let (attributes, rest') := writtenList (rest.length + 1) (rest.dropWhile isTagChar)
      let tag : OpenTag :=
        { name := c :: rest.takeWhile isTagChar
          attributes
          blanks := rest'.takeWhile Text.isBlank }
      match rest'.dropWhile Text.isBlank with
      | '>' :: after => some (tag, after)
      | '/' :: '>' :: after => some ({ tag with selfClosing := true }, after)
      | _ => none
    else none
  | _ => none

/-- The opening tags of a line from column `n` on, each with its column, counted from zero, and
what follows it. -/
def openTags : (fuel n : Nat) → Text → List (Nat × OpenTag × Text)
  | 0, _, _ => []
  | fuel + 1, n, cs =>
    match openTag? cs with
    | some (tag, rest) => (n, tag, rest) :: openTags fuel (n + (cs.length - rest.length)) rest
    | none =>
      match cs with
      | [] => []
      | _ :: cs => openTags fuel (n + 1) cs

/-- The text between a tag and the closing tag of its name, if nothing else stands there. -/
def enclosed? (name after : Text) : Option Text :=
  match Text.after? ('<' :: '/' :: name) (after.dropWhile (· != '<')) with
  | some rest =>
    if (rest.dropWhile Text.isBlank).head? == some '>' then
      some (after.takeWhile (· != '<'))
    else none
  | none => none

/-- The text that a tag encloses, with single spaces between its words. -/
def content? (name after : Text) : Option Text :=
  ((enclosed? name after).map Text.normalizeBlanks).filter (!·.isEmpty)

end MarkupIds.Sfc
