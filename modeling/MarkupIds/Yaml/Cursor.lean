import MarkupIds.Text.Basic

/-!
# Places in a document

A cursor is the rest of a document together with the column it stands at and the number of
lines and characters before it.
-/

namespace MarkupIds.Yaml

structure Cursor where
  rest : Text
  index : Nat := 0
  line : Nat := 0
  column : Nat := 0

/-- Characters that end a line. -/
def isBreak (c : Char) : Bool :=
  let n := c.toNat
  n == 10 || n == 13 || n == 0x85 || n == 0x2028 || n == 0x2029

/-- The end of the document, a line break, a space or a tab. -/
def isEdge : Option Char → Bool
  | none => true
  | some c => c == ' ' || c == '\t' || isBreak c

namespace Cursor

def peek (c : Cursor) : Option Char := c.rest.head?

def peekAt (c : Cursor) (n : Nat) : Option Char := (c.rest.drop n).head?

/-- Goes past one character; a line break starts a new line. -/
def next (c : Cursor) : Cursor :=
  match c.rest with
  | [] => c
  | '\r' :: '\n' :: cs => ⟨'\n' :: cs, c.index + 1, c.line, c.column + 1⟩
  | d :: cs =>
    if isBreak d then ⟨cs, c.index + 1, c.line + 1, 0⟩
    else if d.toNat == 0xFEFF then ⟨cs, c.index + 1, c.line, c.column⟩
    else ⟨cs, c.index + 1, c.line, c.column + 1⟩

def skip : Nat → Cursor → Cursor
  | 0, c => c
  | n + 1, c => skip n c.next

/-- Goes past the characters that satisfy `p`, and gives them. -/
def span (p : Char → Bool) (c : Cursor) : Text × Cursor :=
  let t := c.rest.takeWhile p
  (t, c.skip t.length)

def skipWhile (p : Char → Bool) (c : Cursor) : Cursor :=
  (c.span p).2

/-- Goes past a line break and gives it; two of them keep their own form, the rest are line
feeds. -/
def lineBreak? (c : Cursor) : Option (Char × Cursor) :=
  match c.rest with
  | '\r' :: '\n' :: _ => some ('\n', c.skip 2)
  | d :: _ =>
    if isBreak d then
      some (if d.toNat == 0x2028 || d.toNat == 0x2029 then d else '\n', c.next)
    else none
  | [] => none

/-- A line of three `mark`s stands here, which separates documents. -/
def atSeparator (mark : Char) (c : Cursor) : Bool :=
  Text.startsWith [mark, mark, mark] c.rest && isEdge (c.peekAt 3)

def atDocumentEdge (c : Cursor) : Bool :=
  c.atSeparator '-' || c.atSeparator '.'

end Cursor

end MarkupIds.Yaml
