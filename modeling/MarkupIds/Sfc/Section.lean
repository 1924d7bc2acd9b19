import MarkupIds.Text.Blank
import MarkupIds.Text.Case

/-!
# Sections of a single-file component

A file is cut into `template`, `script` and `style` sections by marker lines. The first section
of a name counts, and one that is never closed runs to the end of the file.
-/

namespace MarkupIds.Sfc

/-- A section between its marker lines. Lines are counted from one. -/
structure Section where
  name : Text
  openLine : Nat
  closeLine : Option Nat := none
  lines : List Text := []
deriving DecidableEq, Repr

namespace Section

def startLine (s : Section) : Nat := s.openLine + 1

def endLine (s : Section) : Nat := s.openLine + s.lines.length

def content (s : Section) : Text := Text.join ['\n'] s.lines

end Section

/-- Letters that agree up to case: the long s counts as an s, and the i with the other dot
rule as an i. -/
def sameLetter (letter c : Char) : Bool :=
  Text.lowerChar c == [letter] || (letter == 's' && c.toNat == 0x17F) ||
    (letter == 'i' && (c.toNat == 0x130 || c.toNat == 0x131))

/-- Cuts off a head that agrees with `word` up to case. -/
def cutWord? : (word cs : Text) → Option (Text × Text)
  | [], cs => some ([], cs)
  | _ :: _, [] => none
  | w :: ws, c :: cs =>
    if sameLetter w c then (cutWord? ws cs).map fun (head, rest) => (c :: head, rest) else none

/-- Cuts off the name of a section, as it is written. -/
def cutSectionName? (cs : Text) : Option (Text × Text) :=
  ["template", "script", "style"].findSome? fun name => cutWord? name.toList cs

/-- The name of the section that a line opens, in lower case. -/
def opens? (line : Text) : Option Text :=
  match line.dropWhile Text.isBlank with
  | '<' :: cs =>
    match cutSectionName? cs with
    | some (name, rest) =>
      if rest.head?.all (fun c => Text.isBlank c || c == '>' || c == '/') then
        some (Text.lower name)
      else none
    | none => none
  | _ => none

/-- The name of the section that a line closes, in lower case. -/
def closes? (line : Text) : Option Text :=
  match line.dropWhile Text.isBlank with
  | '<' :: '/' :: cs =>
    match cutSectionName? cs with
    | some (name, rest) =>
      if (rest.dropWhile Text.isBlank).head? == some '>' then some (Text.lower name) else none
    | none => none
  | _ => none

/-- The sections of the lines from line `n` on, after those already found. -/
def sectionsFrom (found : List Section) (current : Option Section) (n : Nat) :
    List Text → List Section
  | [] => found ++ current.toList
  | line :: lines =>
    match current with
    | none =>
      match opens? line with
      | some name =>
        if found.any (·.name == name) then sectionsFrom found none (n + 1) lines
        else sectionsFrom found (some { name, openLine := n }) (n + 1) lines
      | none => sectionsFrom found none (n + 1) lines
    | some s =>
      if closes? line == some s.name then
        sectionsFrom (found ++ [{ s with closeLine := some n }]) none (n + 1) lines
      else sectionsFrom found (some { s with lines := s.lines ++ [line] }) (n + 1) lines

/-- The sections of a file in the order they end. -/
def sections (source : Text) : List Section :=
  sectionsFrom [] none 1 (Text.split '\n' source)

def section? (source : Text) (name : String) : Option Section :=
  (sections source).find? (·.name == name.toList)

/-- The file with other lines in place of a section's own. -/
def replaceLines (source : Text) (s : Section) (lines : List Text) : Text :=
  let all := Text.split '\n' source
  Text.join ['\n'] (all.take s.openLine ++ lines ++ all.drop s.endLine)

end MarkupIds.Sfc
