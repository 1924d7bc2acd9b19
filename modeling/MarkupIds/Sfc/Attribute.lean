import MarkupIds.Element
import MarkupIds.Text.Blank
import MarkupIds.Text.Word

/-!
# Attributes as they are written

An attribute in a template is blanks, a name, and perhaps a value in double quotes, in single
quotes or bare.
-/

namespace MarkupIds.Sfc

inductive Quoting where
  | double
  | single
  | bare
deriving DecidableEq, Repr

/-- `= value` with the blanks around the sign. -/
structure Assignment where
  blanksBefore : Text := []
  blanksAfter : Text := []
  quoting : Quoting := .double
  value : Text
deriving DecidableEq, Repr

def Assignment.render (a : Assignment) : Text :=
  let written := match a.quoting with
    | .double => '"' :: a.value ++ ['"']
    | .single => '\'' :: a.value ++ ['\'']
    | .bare => a.value
  a.blanksBefore ++ '=' :: a.blanksAfter ++ written

/-- An attribute with the blanks in front of it. -/
structure Written where
  blanks : Text
  name : Text
  assignment : Option Assignment := none
deriving DecidableEq, Repr

def Written.render (w : Written) : Text :=
  w.blanks ++ w.name ++ (w.assignment.map Assignment.render).getD []

/-- Characters of a bare value. -/
def isBareChar (c : Char) : Bool :=
  !Text.isBlank c && c != '"' && c != '\'' && c != '>'

/-- Characters of a name between blanks. -/
def isNameChar (c : Char) : Bool :=
  !Text.isBlank c && c != '"' && c != '\'' && c != '>' && c != '/' && c != '='

/-- The value at the head of `cs`, how it is quoted, and what follows. -/
def value? (cs : Text) : Option (Quoting × Text × Text) :=
  let upTo (quote : Char) (quoting : Quoting) (body : Text) :=
    match body.dropWhile (· != quote) with
    | [] => none
    | _ :: rest => some (quoting, body.takeWhile (· != quote), rest)
  match cs with
  | '"' :: body => upTo '"' .double body
  | '\'' :: body => upTo '\'' .single body
  | _ =>
    match cs.takeWhile isBareChar with
    | [] => none
    | value => some (.bare, value, cs.dropWhile isBareChar)

def assignment? (cs : Text) : Option (Assignment × Text) :=
  match cs.dropWhile Text.isBlank with
  | '=' :: rest =>
    match value? (rest.dropWhile Text.isBlank) with
    | some (quoting, value, after) =>
      some ({ blanksBefore := cs.takeWhile Text.isBlank
              blanksAfter := rest.takeWhile Text.isBlank
              quoting, value }, after)
    | none => none
  | _ => none

/-- The attribute at the head of `cs`, which starts with a blank, and what follows it. -/
def written? (cs : Text) : Option (Written × Text) :=
  match cs.takeWhile Text.isBlank with
  | [] => none
  | blanks =>
    let start := cs.dropWhile Text.isBlank
    match start.takeWhile isNameChar with
    | [] => none
    | name =>
      let rest := start.dropWhile isNameChar
      match assignment? rest with
      | some (assignment, rest) => some ({ blanks, name, assignment := some assignment }, rest)
      | none => some ({ blanks, name }, rest)

/-- The attributes at the head of `cs`, at most `fuel` of them. -/
def writtenList : (fuel : Nat) → Text → List Written × Text
  | 0, cs => ([], cs)
  | fuel + 1, cs =>
    match written? cs with
    | some (w, rest) =>
      let (ws, rest) := writtenList fuel rest
      (w :: ws, rest)
    | none => ([], cs)

/-- The first attribute called `name` in `cs`: what stands before it, the attribute, and what
stands after. -/
def findWritten? (name : Text) : (fuel : Nat) → Text → Option (Text × Written × Text)
  | 0, _ => none
  | fuel + 1, cs =>
    match written? cs with
    | some (w, rest) =>
      if w.name == name then some ([], w, rest)
      else (findWritten? name fuel rest).map fun (before, found, after) =>
        (w.render ++ before, found, after)
    | none =>
      match cs with
      | [] => none
      | c :: cs => (findWritten? name fuel cs).map fun (before, found, after) =>
        (c :: before, found, after)

/-! Reading values -/

def isNameStart (c : Char) : Bool :=
  Text.isAsciiLetter c || c == '_'

def isNameTail (c : Char) : Bool :=
  Text.isWordChar c || c == '.' || c == ':' || c == '-'

/-- A directive mark that may stand in front of a name. -/
def isMark (c : Char) : Bool :=
  c == ':' || c == '@' || c == '#'

/-- The name at the head of `cs` and what follows it. -/
def name? (cs : Text) : Option (Text × Text) :=
  let plain (cs : Text) : Option (Text × Text) :=
    match cs with
    | c :: rest =>
      if isNameStart c then some (c :: rest.takeWhile isNameTail, rest.dropWhile isNameTail)
      else none
    | [] => none
  match cs with
  | c :: rest =>
    if isMark c then (plain rest).map fun (name, rest) => (c :: name, rest) else plain cs
  | [] => none

/-- The names and values of an attribute list, left to right. What is no attribute is skipped. -/
def pairs : (fuel : Nat) → Text → List (Text × Text)
  | 0, _ => []
  | fuel + 1, cs =>
    match name? cs with
    | some (name, rest) =>
      match assignment? rest with
      | some (assignment, rest) => (name, assignment.value) :: pairs fuel rest
      | none => (name, []) :: pairs fuel rest
    | none =>
      match cs with
      | [] => []
      | _ :: cs => pairs fuel cs

/-- The attributes of an attribute list; of two with one name the later value counts. -/
def readAttributes (cs : Text) : Attributes :=
  (pairs (cs.length + 1) cs).foldl (fun attrs (name, value) => Attributes.set attrs name value) []

end MarkupIds.Sfc
