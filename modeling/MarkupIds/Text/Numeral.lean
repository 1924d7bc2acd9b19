import MarkupIds.Text.Blank
import MarkupIds.Text.Word

/-!
# Numerals

Whole numbers as text: reading with signs, separators and the digits of any script, and writing
in bases up to 36.
-/

namespace MarkupIds.Text

/-- Digits of `n`, least significant first, in front of nothing for zero. -/
def digitsRev (base : Nat) (n : Nat) : List Nat :=
  if _h : 2 ≤ base ∧ 0 < n then
    n % base :: digitsRev base (n / base)
  else []
termination_by n
decreasing_by exact Nat.div_lt_self _h.2 _h.1

def digitChar (d : Nat) : Char :=
  if d < 10 then Char.ofNat ('0'.toNat + d) else Char.ofNat ('a'.toNat + (d - 10))

/-- The numeral of `n` in a base from 2 to 36, in lower case. -/
def ofNat (base : Nat) (n : Nat) : Text :=
  match (digitsRev base n).reverse with
  | [] => ['0']
  | ds => ds.map digitChar

def decimal (n : Nat) : Text := ofNat 10 n

def ofInt (n : Int) : Text :=
  if n < 0 then '-' :: decimal n.natAbs else decimal n.natAbs

def foldDigits (base : Nat) (ds : List Nat) : Nat :=
  ds.foldl (fun acc d => acc * base + d) 0

/-- Digits with single underscores allowed between them. -/
def groupedDigits? (digit? : Char → Option Nat) : Text → Option (List Nat)
  | [] => none
  | [c] => (digit? c).map ([·])
  | c :: '_' :: cs => do
    let d ← digit? c
    let ds ← groupedDigits? digit? cs
    return d :: ds
  | c :: cs => do
    let d ← digit? c
    let ds ← groupedDigits? digit? cs
    return d :: ds

/-- Reads a whole number: blanks around it, a sign, digits of any script, and single
underscores between digits are allowed. -/
def readInt? (t : Text) : Option Int :=
  let body := trim t
  let unsigned (cs : Text) : Option Int :=
    (groupedDigits? digitValue? cs).map fun ds => Int.ofNat (foldDigits 10 ds)
  match body with
  | '-' :: cs => (unsigned cs).map (- ·)
  | '+' :: cs => unsigned cs
  | cs => unsigned cs

end MarkupIds.Text
