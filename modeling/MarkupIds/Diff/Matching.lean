import MarkupIds.Text.Basic

/-!
# Matching lines

Two lists of lines are matched by their longest common stretch, then what stands before and
after it in the same way. In a list of 200 lines or more, lines that occur too often start no
match, though a match may run over them.
-/

namespace MarkupIds.Diff

/-- A common stretch: `size` lines from line `a` of one list and from line `b` of the other. -/
structure Match where
  a : Nat
  b : Nat
  size : Nat
deriving DecidableEq, Repr

/-- Lines that are too common to start a match. -/
def popular (bs : List Text) : List Text :=
  let n := bs.length
  if n < 200 then []
  else (Text.dedup bs).filter fun line => n / 100 + 1 < bs.count line

/-- For each line of `bs`, the length of the common stretch that ends there and at `line`, given
those that end one line earlier. -/
def stretch (common : List Text) (line : Text) : (before : Nat) → List Nat → List Text → List Nat
  | _, _, [] => []
  | before, ends, b :: bs =>
    let here := if b == line && !common.contains line then before + 1 else 0
    here :: stretch common line (ends.head?.getD 0) ends.tail bs

/-- The longest of some stretches that end at line `i`, if it is longer than the best so far. -/
def better (i : Nat) : (best : Match) → (j : Nat) → List Nat → Match
  | best, _, [] => best
  | best, j, k :: ks =>
    better i (if best.size < k then ⟨i + 1 - k, j + 1 - k, k⟩ else best) (j + 1) ks

/-- The longest common stretch, the first in `as` and then in `bs` among equals. -/
def longestFrom (common : List Text) (bs : List Text) :
    (best : Match) → (i : Nat) → (ends : List Nat) → List Text → Match
  | best, _, _, [] => best
  | best, i, ends, line :: as =>
    let ends := stretch common line 0 ends bs
    longestFrom common bs (better i best 0 ends) (i + 1) ends as

/-- The number of leading lines that agree. -/
def agreeing : List Text → List Text → Nat
  | a :: as, b :: bs => if a == b then agreeing as bs + 1 else 0
  | _, _ => 0

/-- The longest common stretch, run on over equal lines at both ends. -/
def longest (common as bs : List Text) : Match :=
  let m := longestFrom common bs ⟨0, 0, 0⟩ 0 [] as
  let back := agreeing (as.take m.a).reverse (bs.take m.b).reverse
  let on := agreeing (as.drop (m.a + m.size)) (bs.drop (m.b + m.size))
  ⟨m.a - back, m.b - back, m.size + back + on⟩

/-- The common stretches of two lists that start at lines `a` and `b`, in order. -/
def matchesFrom (common : List Text) : (fuel a b : Nat) → List Text → List Text → List Match
  | 0, _, _, _, _ => []
  | fuel + 1, a, b, as, bs =>
    let m := longest common as bs
    if m.size == 0 then []
    else
      matchesFrom common fuel a b (as.take m.a) (bs.take m.b) ++
        ⟨a + m.a, b + m.b, m.size⟩ ::
        matchesFrom common fuel (a + m.a + m.size) (b + m.b + m.size)
          (as.drop (m.a + m.size)) (bs.drop (m.b + m.size))

/-- Joins stretches that touch in both lists. -/
def joinTouching : List Match → List Match
  | m :: ms =>
    match joinTouching ms with
    | [] => [m]
    | n :: ns =>
      if m.a + m.size == n.a && m.b + m.size == n.b then ⟨m.a, m.b, m.size + n.size⟩ :: ns
      else m :: n :: ns
  | [] => []

def matchings (as bs : List Text) : List Match :=
  joinTouching (matchesFrom (popular bs) (as.length + 1) 0 0 as bs)

/-- A stretch of the way from one list to the other: kept, or put in place of another. -/
structure Step where
  kept : Bool
  a : Nat
  aEnd : Nat
  b : Nat
  bEnd : Nat
deriving DecidableEq, Repr

/-- The steps between matches, from lines `a` and `b` to the ends. -/
def stepsFrom (a b aEnd bEnd : Nat) : List Match → List Step
  | [] => if a < aEnd || b < bEnd then [⟨false, a, aEnd, b, bEnd⟩] else []
  | m :: ms =>
    let change : List Step :=
      if a < m.a || b < m.b then [⟨false, a, m.a, b, m.b⟩] else []
    change ++ ⟨true, m.a, m.a + m.size, m.b, m.b + m.size⟩ ::
      stepsFrom (m.a + m.size) (m.b + m.size) aEnd bEnd ms

def steps (as bs : List Text) : List Step :=
  stepsFrom 0 0 as.length bs.length (matchings as bs)

end MarkupIds.Diff
