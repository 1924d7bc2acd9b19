import MarkupIds.Text.Case
import MarkupIds.Text.Numeral

/-!
# Decimals

Doubles from text: the double that is nearest to the number written.
-/

namespace MarkupIds.Number

/-- The double nearest to `d · 10 ^ e`. Exponents beyond the reach of doubles are brought near,
which keeps the result. -/
def ofDecimal (d : Nat) (e : Int) : Float :=
  let reach : Int := 400 + Int.ofNat (Text.decimal d).length
  let e := max (-reach) (min e reach)
  Float.ofScientific d (e < 0) e.natAbs

/-- Digits with a value, and how many there are. -/
def readDigits? (t : Text) : Option (Nat × Nat) := do
  let ds ← t.mapM Text.digitValue?
  return (Text.foldDigits 10 ds, ds.length)

/-- An exponent: a whole number after its letter, or nothing. -/
def readExponent? : Text → Option Int
  | [] => some 0
  | _ :: '-' :: ds => positive? ds |>.map (- ·)
  | _ :: '+' :: ds => positive? ds
  | _ :: ds => positive? ds
where
  positive? (ds : Text) : Option Int :=
    if ds.isEmpty then none else (readDigits? ds).map fun (n, _) => Int.ofNat n

/-- Reads a number without sign: digits around a point, with an exponent. -/
def readUnsigned? (t : Text) : Option Float :=
  let name := Text.lower t
  if name == "inf".toList || name == "infinity".toList then some (1.0 / 0.0)
  else if name == "nan".toList then some (0.0 / 0.0)
  else do
    let isMark (c : Char) := c == 'e' || c == 'E'
    let (whole, fraction) := match Text.cut? ['.'] (t.takeWhile (!isMark ·)) with
      | some (whole, fraction) => (whole, fraction)
      | none => (t.takeWhile (!isMark ·), [])
    let (d, count) ← readDigits? (whole ++ fraction)
    if count == 0 then none
    let exponent ← readExponent? (t.dropWhile (!isMark ·))
    return ofDecimal d (exponent - Int.ofNat fraction.length)

/-- Reads a number: blanks around it and a sign are allowed. -/
def readFloat? (t : Text) : Option Float :=
  match Text.trim t with
  | '-' :: cs => (readUnsigned? cs).map (- ·)
  | '+' :: cs => readUnsigned? cs
  | cs => readUnsigned? cs

end MarkupIds.Number
