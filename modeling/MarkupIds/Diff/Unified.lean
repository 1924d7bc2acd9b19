import MarkupIds.Diff.Matching
import MarkupIds.Text.Blank
import MarkupIds.Text.Numeral

/-!
# Unified diffs

Changes with some kept lines around them, in hunks. Lines keep their own endings.
-/

namespace MarkupIds.Diff

/-- Cuts the kept steps at both ends to `n` lines. -/
def trimEnds (n : Nat) (steps : List Step) : List Step :=
  let first := match steps with
    | s :: rest =>
      (if s.kept then { s with a := max s.a (s.aEnd - n), b := max s.b (s.bEnd - n) } else s) ::
        rest
    | [] => []
  match first.reverse with
  | s :: rest =>
    ((if s.kept then { s with aEnd := min s.aEnd (s.a + n), bEnd := min s.bEnd (s.b + n) }
      else s) :: rest).reverse
  | [] => []

/-- Puts steps into hunks: a kept step of more than `2 * n` lines ends one and starts another. -/
def hunksFrom (n : Nat) (hunk : List Step) : List Step → List (List Step)
  | [] => if hunk.all (·.kept) && hunk.length ≤ 1 then [] else [hunk]
  | s :: rest =>
    if s.kept && 2 * n < s.aEnd - s.a then
      (hunk ++ [{ s with aEnd := min s.aEnd (s.a + n), bEnd := min s.bEnd (s.b + n) }]) ::
        hunksFrom n [{ s with a := max s.a (s.aEnd - n), b := max s.b (s.bEnd - n) }] rest
    else hunksFrom n (hunk ++ [s]) rest

def hunks (n : Nat) (steps : List Step) : List (List Step) :=
  hunksFrom n [] (trimEnds n steps)

/-- A range of lines: its first line and its length, which is left out if it is one. An empty
range names the line before it. -/
def range (start stop : Nat) : Text :=
  let length := stop - start
  if length == 1 then Text.decimal (start + 1)
  else Text.decimal (if length == 0 then start else start + 1) ++ ',' :: Text.decimal length

def slice (lines : List Text) (start stop : Nat) : List Text :=
  (lines.drop start).take (stop - start)

def stepLines (as bs : List Text) (s : Step) : List Text :=
  if s.kept then (slice as s.a s.aEnd).map (' ' :: ·)
  else (slice as s.a s.aEnd).map ('-' :: ·) ++ (slice bs s.b s.bEnd).map ('+' :: ·)

def hunkLines (as bs : List Text) (hunk : List Step) : List Text :=
  match hunk.head?, hunk.getLast? with
  | some first, some last =>
    ("@@ -".toList ++ range first.a last.aEnd ++ " +".toList ++ range first.b last.bEnd ++
        " @@\n".toList) :: hunk.flatMap (stepLines as bs)
  | _, _ => []

/-- The unified diff of two texts with `n` lines around changes; empty if nothing changes. -/
def unified (n : Nat) (path old new : Text) : Text :=
  if old == new then []
  else
    let as := Text.linesWithEnds old
    let bs := Text.linesWithEnds new
    match hunks n (steps as bs) with
    | [] => []
    | all =>
      "--- a/".toList ++ path ++ "\n+++ b/".toList ++ path ++ ['\n'] ++
        (all.flatMap (hunkLines as bs)).flatten

end MarkupIds.Diff
