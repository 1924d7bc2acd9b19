import MarkupIds.Selector.Basic
import MarkupIds.Text.Quoted

/-!
# Reading selectors

`button.primary[type=submit], a.cta` is two alternatives. Reading cuts at commas first, so a
value in quotes holds none.
-/

namespace MarkupIds

inductive SelectorError where
  /-- An alternative is blank. -/
  | empty (selector : Text)
  /-- No part of a compound selector starts at `rest`. -/
  | malformed (rest compound : Text)
deriving DecidableEq, Repr

def SelectorError.message : SelectorError → Text
  | .empty selector => "Empty selector in ".toList ++ Text.quoted selector
  | .malformed rest compound =>
    "Invalid selector syntax near ".toList ++ Text.quoted rest ++ " in ".toList ++
      Text.quoted compound

namespace Selector

def isNameChar (c : Char) : Bool :=
  Text.isWordChar c || c == '-'

/-- A simple part of a compound selector. -/
inductive Part where
  | cls (name : Text)
  | id (name : Text)
  | attr (name : Text) (value : Option Text)
deriving DecidableEq, Repr

/-- The rest after blanks and a closing bracket. -/
def closeBracket? (cs : Text) : Option Text :=
  match cs.dropWhile Text.isBlank with
  | ']' :: rest => some rest
  | _ => none

/-- A value between two `quote`s that ends the attribute test. -/
def quotedValue? (quote : Char) (cs : Text) : Option (Text × Text) :=
  match cs with
  | [] => none
  | c :: body =>
    if c == quote then
      match body.dropWhile (· != quote) with
      | [] => none
      | _ :: rest => (closeBracket? rest).map fun rest => (body.takeWhile (· != quote), rest)
    else none

/-- A value without quotes: everything up to a blank or the bracket. -/
def bareValue? (cs : Text) : Option (Text × Text) :=
  let inside (c : Char) := c != ']' && !Text.isBlank c
  (closeBracket? (cs.dropWhile inside)).map fun rest => (cs.takeWhile inside, rest)

/-- A value in quotes or without them. -/
def value? (cs : Text) : Option (Text × Text) :=
  ((quotedValue? '"' cs).or (quotedValue? '\'' cs)).or (bareValue? cs)

def isAttributeChar (c : Char) : Bool :=
  c != ']' && c != '=' && !Text.isBlank c

/-- The end of an attribute test, after the name and blanks. -/
def attributeEnd? (name : Text) : Text → Option (Part × Text)
  | ']' :: rest => some (.attr name none, rest)
  | '=' :: rest =>
    (value? (rest.dropWhile Text.isBlank)).map fun (v, rest) => (.attr name (some v), rest)
  | _ => none

/-- The inside of an attribute test, after its opening bracket. -/
def attributePart? (cs : Text) : Option (Part × Text) :=
  let start := cs.dropWhile Text.isBlank
  let name := start.takeWhile isAttributeChar
  if name.isEmpty then none
  else attributeEnd? name ((start.dropWhile isAttributeChar).dropWhile Text.isBlank)

def namedPart? (make : Text → Part) (cs : Text) : Option (Part × Text) :=
  let name := cs.takeWhile isNameChar
  if name.isEmpty then none else some (make name, cs.dropWhile isNameChar)

/-- The part at the head of `cs` and what follows it. -/
def part? : Text → Option (Part × Text)
  | '.' :: cs => namedPart? .cls cs
  | '#' :: cs => namedPart? .id cs
  | '[' :: cs => attributePart? cs
  | _ => none

def addPart (s : Selector) : Part → Selector
  | .cls name => { s with classes := s.classes ++ [name] }
  | .id name => { s with id := some name }
  | .attr name value => { s with attributes := s.attributes ++ [(name, value)] }

/-- Adds the parts of `cs` to `s`. Every part takes a character, so `cs.length` steps do. -/
def readParts (compound : Text) : Nat → Selector → Text → Except SelectorError Selector
  | _, s, [] => .ok s
  | 0, _, cs => .error (.malformed cs compound)
  | fuel + 1, s, cs =>
    match part? cs with
    | some (part, rest) => readParts compound fuel (s.addPart part) rest
    | none => .error (.malformed cs compound)

/-- The tag or star at the head, and what follows it. -/
def tagPart (cs : Text) : Option Text × Text :=
  match cs with
  | '*' :: rest => (none, rest)
  | c :: rest =>
    if Text.isAsciiLetter c then
      (some (Text.lower (c :: rest.takeWhile isNameChar)), rest.dropWhile isNameChar)
    else (none, cs)
  | [] => (none, [])

def readCompound (cs : Text) : Except SelectorError Selector :=
  let (tag, rest) := tagPart cs
  readParts cs rest.length { tag } rest

/-- The alternatives of a selector, in order. -/
def read (t : Text) : Except SelectorError (List Selector) :=
  let alternatives := (Text.split ',' t).map Text.trim
  if alternatives.any (·.isEmpty) then .error (.empty t)
  else alternatives.mapM readCompound

/-- Whether some alternative of a selector accepts the element. -/
def holds (t : Text) (e : Element) : Except SelectorError Bool :=
  return (← read t).any (·.accepts e)

end Selector

end MarkupIds
