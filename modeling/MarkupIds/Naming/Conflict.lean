import MarkupIds.Naming.Identifier
import MarkupIds.Text.Numeral

/-!
# Conflicts

A candidate that is taken gets a suffix: the numbers 1 to 100 first, then the clock in base 36.
The answer is the first free identifier of that sequence.
-/

namespace MarkupIds.Naming

/-- `base-suffix`, with the base shortened to meet the bound. A bound too small for any of the
base leaves the end of the suffix. -/
def withSuffix (limit : Limit) (base suffix : Text) : Text :=
  let whole := base ++ '-' :: suffix
  match limit.bound? with
  | none => whole
  | some m =>
    if whole.length ≤ m then whole
    else
      let room := (m - suffix.length - 1).toNat
      match Text.dropTailWhile isSeparator (base.take room) with
      | [] => if 0 < m then suffix.drop (suffix.length - m.toNat) else suffix.drop m.natAbs
      | trimmed => trimmed ++ '-' :: suffix

/-- The base of the `n`-th numbered identifier: past the tenth, a candidate of more than 30
characters is cut to 25. -/
def numberedBase (candidate : Text) (n : Nat) : Text :=
  if 10 < n && 30 < candidate.length then
    Text.dropTailWhile isSeparator (candidate.take 25)
  else candidate

def numbered (limit : Limit) (candidate : Text) (n : Nat) : Text :=
  withSuffix limit (numberedBase candidate n) (Text.decimal n)

def stamped (limit : Limit) (candidate : Text) (stamp : Nat) : Text :=
  withSuffix limit candidate (Text.ofNat 36 stamp)

/-- The candidate and its hundred numbered forms. -/
def rungs (limit : Limit) (candidate : Text) : List Text :=
  candidate :: (List.range' 1 100).map (numbered limit candidate)

/-- The first free identifier among `steps` stamps from `stamp` on. -/
def firstFreeStamp (limit : Limit) (candidate : Text) (taken : List Text) :
    (steps stamp : Nat) → Option Text
  | 0, _ => none
  | steps + 1, stamp =>
    let id := stamped limit candidate stamp
    if taken.contains id then firstFreeStamp limit candidate taken steps (stamp + 1) else some id

/-- Enough stamps to meet a free identifier if the stamps ever reach one. -/
def stampSteps (limit : Limit) (taken : List Text) : Nat :=
  Nat.pow 36 ((limit.getD 0).natAbs + taken.length + 1) + taken.length + 2

/-- The first identifier of the ladder that is not taken. The clock counts milliseconds. -/
def resolve (clock : Nat) (limit : Limit) (taken : List Text) (candidate : Text) : Option Text :=
  match (rungs limit candidate).find? (!taken.contains ·) with
  | some id => some id
  | none => firstFreeStamp limit candidate taken (stampSteps limit taken) clock

end MarkupIds.Naming
