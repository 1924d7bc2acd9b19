import MarkupIds.Edit
import MarkupIds.Sfc.Section
import MarkupIds.Sfc.Tag
import MarkupIds.Text.Numeral

/-!
# Revising single-file components

Edits change lines of the template only, the last one first, so that no edit moves the place of
another.
-/

namespace MarkupIds.Sfc

/-- Why an edit cannot be made. -/
inductive EditError where
  | outsideTemplate (line : Int)
  | noTag (tag : Text)
  | unfinishedTag (tag : Text)
  | noAttribute (name : Text)
deriving DecidableEq, Repr

def EditError.message : EditError → Text
  | .outsideTemplate line =>
    "line ".toList ++ Text.ofInt line ++ " is outside the template section".toList
  | .noTag tag => "could not find opening tag <".toList ++ tag ++ "> in line".toList
  | .unfinishedTag tag => "opening tag <".toList ++ tag ++ "> does not end on its line".toList
  | .noAttribute name => "attribute ".toList ++ name ++ " not present".toList

/-- What follows `<tag` at the head of `cs`, where the tag's name ends. -/
def afterTag? (tag cs : Text) : Option Text :=
  (Text.after? ('<' :: tag) cs).filter fun rest =>
    rest.head?.all fun c => Text.isBlank c || c == '>' || c == '/'

/-- The first `<tag` on a line: what stands before it, and the rest of the line from it on. -/
def findTag? (tag : Text) : Text → Option (Text × Text)
  | [] => none
  | c :: cs =>
    if (afterTag? tag (c :: cs)).isSome then some ([], c :: cs)
    else (findTag? tag cs).map fun (before, at') => (c :: before, at')

/-- Finds a tag at a column, or else the first of its name on the line. -/
def locateTag? (tag : Text) (column : Int) (line : Text) : Option (Text × Text) :=
  let start := (column - 1).toNat
  if (afterTag? tag (line.drop start)).isSome then some (line.take start, line.drop start)
  else findTag? tag line

/-- A value between double quotes, with its own quotes as references. -/
def renderAttribute (name value : Text) : Text :=
  name ++ '=' :: '"' :: Text.replace ['"'] "&quot;".toList value ++ ['"']

/-- Sets an attribute in the inside of an opening tag. `head` is `<tag`, `body` the rest up to
the end of the tag without its slash. -/
def setAttribute (name value head body : Text) (slash : Text) : Text :=
  match findWritten? name (body.length + 1) body with
  | some (before, found, after) =>
    head ++ before ++ found.blanks.take 1 ++ renderAttribute name value ++ after ++ slash
  | none =>
    let whole := head ++ body
    let stripped := Text.trimEnd whole
    stripped ++ ' ' :: renderAttribute name value ++ whole.drop stripped.length ++ slash

/-- Removes an attribute from the inside of an opening tag. -/
def removeAttribute? (name head body slash : Text) : Option Text :=
  (findWritten? name (body.length + 1) body).map fun (before, _, after) =>
    head ++ before ++ after ++ slash

def editLine (line : Text) (e : Edit) : Except EditError Text :=
  let tag := e.element.tag
  match locateTag? tag e.position.column line with
  | none => .error (.noTag tag)
  | some (before, found) =>
    match openTag? found with
    | none => .error (.unfinishedTag tag)
    | some (opening, after) =>
      let slash : Text := if opening.selfClosing then ['/'] else []
      let inside := found.take (found.length - after.length - 1 - slash.length)
      let head := inside.take (tag.length + 1)
      let body := inside.drop (tag.length + 1)
      let finish (opened : Text) := before ++ opened ++ '>' :: after
      match e.kind with
      | .remove =>
        match removeAttribute? e.name head body slash with
        | some opened => .ok (finish opened)
        | none => .error (.noAttribute e.name)
      | .add | .modify => .ok (finish (setAttribute e.name e.value head body slash))

/-- Edits from the bottom to the top, and on one line from the right to the left. -/
def bottomUp (edits : List Edit) : List Edit :=
  edits.mergeSort fun a b =>
    b.position.line < a.position.line ||
      (b.position.line == a.position.line && b.position.column ≤ a.position.column)

/-- Makes one edit on the lines of a template that starts at line `start`. -/
def editLines (start : Nat) (lines : List Text) (e : Edit) : Except EditError (List Text) := do
  let index := e.position.line - start
  if index < 0 then throw (.outsideTemplate e.position.line)
  match lines[index.toNat]? with
  | none => throw (.outsideTemplate e.position.line)
  | some line => return lines.set index.toNat (← editLine line e)

/-- The lines of a template while edits are made. -/
structure Progress where
  lines : List Text
  diagnostics : List Diagnostic := []
  applied : List Edit := []

def Progress.step (start : Nat) (p : Progress) (e : Edit) : Progress :=
  match editLines start p.lines e with
  | .ok lines => { p with lines, applied := p.applied ++ [e] }
  | .error reason =>
    { p with
      diagnostics := p.diagnostics ++
        [{ message := "Failed to apply transformation: ".toList ++ reason.message
           position := some e.position }] }

/-- Two lists of sections have the same names. -/
def sameNames (a b : List Section) : Bool :=
  let names (s : List Section) := s.map (·.name)
  (names a).all (names b).contains && (names b).all (names a).contains

def revise (source : Text) (edits : List Edit) : Revision :=
  if edits.isEmpty then { code := source }
  else match section? source "template" with
    | none => .refused source "No template section found for transformation".toList
    | some template =>
      let done := (bottomUp edits).foldl (Progress.step template.startLine)
        { lines := template.lines }
      if done.applied.isEmpty then { code := source, diagnostics := done.diagnostics }
      else
        let code := replaceLines source template done.lines
        if sameNames (sections code) (sections source) then
          { code, diagnostics := done.diagnostics, applied := done.applied }
        else .refused source "Transform error: rewritten file changed its section layout".toList

end MarkupIds.Sfc
