import MarkupIds.Element
import MarkupIds.Text.Encoding

/-!
# Positions of bytes

Scripts are parsed as bytes, while offsets, lines and columns count characters.
-/

namespace MarkupIds

/-- The offsets behind the line feeds of a text that stands at offset `n`. -/
def lineStartsFrom (n : Nat) : Text → List Nat
  | [] => []
  | c :: cs =>
    if c == '\n' then (n + 1) :: lineStartsFrom (n + 1) cs else lineStartsFrom (n + 1) cs

/-- The offsets at which the lines of a text start. -/
def lineStarts (t : Text) : List Nat :=
  0 :: lineStartsFrom 0 t

/-- How many entries of a sorted list are at most `x`, if it is `lo` or more and `hi` or less. Each
step halves the range, so `hi - lo` steps do. -/
def bisect (xs : List Nat) (x : Nat) : (fuel lo hi : Nat) → Nat
  | 0, lo, _ => lo
  | fuel + 1, lo, hi =>
    if lo < hi then
      let mid := (lo + hi) / 2
      if xs[mid]?.any (x < ·) then bisect xs x fuel lo mid else bisect xs x fuel (mid + 1) hi
    else lo

/-- The position of an offset in a text whose lines start at these offsets. -/
def Position.ofLineStarts (starts : List Nat) (offset : Nat) : Position :=
  let row := bisect starts offset starts.length 0 starts.length - 1
  ⟨row + 1, offset - starts.getD row 0 + 1, offset⟩

/-- What is kept of a text to find the positions of its bytes. -/
structure OffsetMap where
  bytes : List UInt8
  /-- Every character takes one byte. -/
  ascii : Bool
  starts : List Nat

namespace OffsetMap

def ofText (t : Text) : OffsetMap :=
  { bytes := Text.encode t
    ascii := (Text.encode t).length == t.length
    starts := lineStarts t }

/-- The number of characters in front of a byte. -/
def charOffset (m : OffsetMap) (byte : Nat) : Nat :=
  if m.ascii then byte else (Text.decode (m.bytes.take byte)).length

def position (m : OffsetMap) (byte : Nat) : Position :=
  .ofLineStarts m.starts (m.charOffset byte)

end OffsetMap

end MarkupIds
