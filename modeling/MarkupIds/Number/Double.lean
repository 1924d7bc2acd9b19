import MarkupIds.Number.Shortest
import MarkupIds.Text.Numeral

/-!
# Doubles as text

Positional notation from `0.0001` up to sixteen whole digits, with a point in any case; other
numbers have an exponent of at least two digits.
-/

namespace MarkupIds.Number

/-- Digits with the zeros at their end moved into the place. -/
def trimZeros : Nat → Nat × Int → Nat × Int
  | 0, x => x
  | fuel + 1, (d, e) => if d != 0 && d % 10 == 0 then trimZeros fuel (d / 10, e + 1) else (d, e)

private def zeros (n : Nat) : Text := List.replicate n '0'

/-- Writes `d · 10 ^ e`. -/
def showDecimal (d : Nat) (e : Int) : Text :=
  let digits := Text.decimal d
  let point := Int.ofNat digits.length + e
  if 16 < point || point < -3 then
    let mantissa := match digits with
      | [] => []
      | [c] => [c]
      | c :: cs => c :: '.' :: cs
    let x := point - 1
    let mag := Text.decimal x.natAbs
    mantissa ++ 'e' :: (if x < 0 then '-' else '+') :: zeros (2 - mag.length) ++ mag
  else if point ≤ 0 then
    '0' :: '.' :: zeros point.natAbs ++ digits
  else if digits.length ≤ point.toNat then
    digits ++ zeros (point.toNat - digits.length) ++ ".0".toList
  else digits.take point.toNat ++ '.' :: digits.drop point.toNat

def showFloat (x : Float) : Text :=
  match Dyadic.ofFloat? x with
  | none =>
    if x.isNaN then "nan".toList else if x < 0 then "-inf".toList else "inf".toList
  | some parts =>
    let body :=
      if parts.m == 0 then "0.0".toList
      else
        let (d, e) := trimZeros 400 (shortest parts.m parts.q)
        showDecimal d e
    if parts.negative then '-' :: body else body

end MarkupIds.Number
