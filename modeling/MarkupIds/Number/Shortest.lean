/-!
# Shortest decimals

The fewest decimal digits that read back as a given binary fraction, and the nearest such
decimal where there are several.
-/

namespace MarkupIds.Number

/-- A finite double: `± m · 2 ^ q`. -/
structure Dyadic where
  negative : Bool
  m : Nat
  q : Int
deriving DecidableEq, Repr

namespace Dyadic

/-- Takes a double apart; infinities and undefined values have no parts. -/
def ofFloat? (x : Float) : Option Dyadic :=
  let bits := x.toBits.toNat
  let negative := bits / Nat.pow 2 63 == 1
  let e := bits / Nat.pow 2 52 % 2048
  let fraction := bits % Nat.pow 2 52
  if e == 2047 then none
  else if e == 0 then some ⟨negative, fraction, -1074⟩
  else some ⟨negative, Nat.pow 2 52 + fraction, Int.ofNat e - 1075⟩

/-- The whole part, toward zero. -/
def truncate (x : Dyadic) : Int :=
  let magnitude := if 0 ≤ x.q then x.m * Nat.pow 2 x.q.toNat else x.m / Nat.pow 2 (-x.q).toNat
  if x.negative then -Int.ofNat magnitude else Int.ofNat magnitude

end Dyadic

/-- The number of decimal digits of the whole part of `num / den`, or minus the number of zeros
after the point. `fuel` bounds the search. -/
def decimalExponent (num den : Nat) : Nat → Int → Int
  | 0, p => p
  | fuel + 1, p =>
    let scaled (p : Int) : Nat × Nat :=
      if 0 ≤ p then (num, den * Nat.pow 10 p.toNat) else (num * Nat.pow 10 (-p).toNat, den)
    let (a, b) := scaled p
    if b ≤ a then decimalExponent num den fuel (p + 1)
    else
      let (a, b) := scaled (p - 1)
      if a < b then decimalExponent num den fuel (p - 1) else p

/-- Digits `d` and place `e` with `d · 10 ^ e` the shortest decimal that rounds to `m · 2 ^ q`.
The test is made in quarters of the last binary place, so that all its ends are whole. -/
def shortest (m : Nat) (q : Int) : Nat × Int :=
  let den := 4 * (if 0 ≤ q then 1 else Nat.pow 2 (-q).toNat)
  let unit := if 0 ≤ q then Nat.pow 2 q.toNat else 1
  let value := 4 * m * unit
  let isPower := m == Nat.pow 2 52 && -1074 < q
  let low := value - (if isPower then unit else 2 * unit)
  let high := value + 2 * unit
  let closed := m % 2 == 0
  let inside (d scale : Nat) (up : Bool) : Bool :=
    let x := if up then d * scale * den else d * den
    let (l, h) := if up then (low, high) else (low * scale, high * scale)
    if closed then l ≤ x && x ≤ h else l < x && x < h
  let p := decimalExponent value den 800 0
  let tryDigits (k : Nat) : Option (Nat × Int) :=
    let e := p - Int.ofNat k
    let up := 0 ≤ e
    let scale := Nat.pow 10 e.natAbs
    let (num, divisor) := if up then (value, den * scale) else (value * scale, den)
    let below := num / divisor
    let twice := 2 * (num % divisor)
    let nearerUp := divisor < twice || (divisor == twice && below % 2 == 1)
    let order := if nearerUp then [below + 1, below] else [below, below + 1]
    (order.find? fun d => 0 < d && inside d scale up).map (·, e)
  match (List.range' 1 17).findSome? tryDigits with
  | some answer => answer
  | none => (m, 0)

end MarkupIds.Number
