/-!
# Texts

A text is a list of characters: offsets, columns and lengths count characters.
-/

namespace MarkupIds

/-- A sequence of Unicode characters. -/
abbrev Text := List Char

namespace Text

/-- Drops the longest tail whose characters all satisfy `p`. -/
def dropTailWhile (p : Char → Bool) (t : Text) : Text :=
  (t.reverse.dropWhile p).reverse

/-- Drops characters satisfying `p` from both ends. -/
def trimWhile (p : Char → Bool) (t : Text) : Text :=
  dropTailWhile p (t.dropWhile p)

/-- The pieces between the characters satisfying `p`; never empty. -/
def splitWhere (p : Char → Bool) : Text → List Text
  | [] => [[]]
  | c :: cs =>
    if p c then [] :: splitWhere p cs
    else match splitWhere p cs with
      | [] => [[c]]
      | piece :: pieces => (c :: piece) :: pieces

def split (sep : Char) (t : Text) : List Text :=
  splitWhere (· == sep) t

def join (sep : Text) (pieces : List Text) : Text :=
  List.intercalate sep pieces

/-- The rest of `t` after the opening `p`, if `t` starts with it. -/
def after? : (p t : Text) → Option Text
  | [], t => some t
  | _ :: _, [] => none
  | a :: p, c :: t => if a == c then after? p t else none

def startsWith (p t : Text) : Bool :=
  (after? p t).isSome

def endsWith (p t : Text) : Bool :=
  startsWith p.reverse t.reverse

/-- Cuts `t` at the first occurrence of `p`: what stands before it and what stands after. -/
def cut? (p : Text) : Text → Option (Text × Text)
  | [] => if p.isEmpty then some ([], []) else none
  | c :: t =>
    match after? p (c :: t) with
    | some rest => some ([], rest)
    | none => (cut? p t).map fun (before, rest) => (c :: before, rest)

/-- Replaces every occurrence of `old`, left to right. `fuel` bounds the number of cuts. -/
def replaceCuts (old new : Text) : Nat → Text → Text
  | 0, t => t
  | fuel + 1, t =>
    match cut? old t with
    | none => t
    | some (before, rest) => before ++ new ++ replaceCuts old new fuel rest

/-- Replaces every occurrence of `old` by `new`; an empty `old` stands at every gap. -/
def replace (old new t : Text) : Text :=
  if old.isEmpty then new ++ t.flatMap fun c => c :: new
  else replaceCuts old new (t.length + 1) t

/-- Collapses each run of `sep` to a single one. -/
def squeeze (sep : Char) : Text → Text
  | [] => []
  | c :: cs =>
    match squeeze sep cs with
    | [] => [c]
    | d :: ds => if c == sep && d == sep then d :: ds else c :: d :: ds

/-- Replaces each maximal run of characters satisfying `p` by one `mark`. -/
def squash (p : Char → Bool) (mark : Char) : Text → Text
  | [] => []
  | c :: cs =>
    if p c then
      match cs with
      | [] => [mark]
      | d :: ds => if p d then squash p mark (d :: ds) else mark :: squash p mark (d :: ds)
    else c :: squash p mark cs

/-- The first `n` characters for `n ≥ 0`; all but the last `-n` for negative `n`. -/
def takeSigned (n : Int) (t : List α) : List α :=
  if 0 ≤ n then t.take n.toNat else t.take (t.length - n.natAbs)

/-- Keeps the first occurrence of each entry. -/
def dedup [BEq α] (xs : List α) : List α :=
  xs.eraseDups

/-- Order by code points. -/
def precedes (a b : Text) : Bool :=
  !List.lex b a fun c d => c < d

def sorted (ts : List Text) : List Text :=
  ts.mergeSort precedes

end Text

end MarkupIds
