import MarkupIds.Text.Basic

/-!
# Splices

Several replacements in one text, all given by offsets into the text as it was. They are made
from the end backwards; one that reaches into a later one is left out.
-/

namespace MarkupIds

/-- Puts `text` in place of the characters from `start` up to `stop`. -/
structure Splice where
  start : Nat
  stop : Nat
  text : Text
deriving DecidableEq, Repr

namespace Splice

/-- Splices with their place in the list, the last in the text first; of two that start
together the later in the list comes first. -/
def backward (splices : List Splice) : List Splice :=
  splices.reverse.mergeSort fun a b => b.start ≤ a.start

def apply (t : Text) (s : Splice) : Text :=
  t.take s.start ++ s.text ++ t.drop s.stop

/-- Makes splices in the given order below `boundary`. Gives the text and where the splices that
are left out start. -/
def applyBelow (boundary : Nat) (t : Text) : List Splice → Text × List Nat
  | [] => (t, [])
  | s :: splices =>
    if boundary < s.stop then
      let (t, skipped) := applyBelow boundary t splices
      (t, s.start :: skipped)
    else applyBelow s.start (s.apply t) splices

def applyAll (t : Text) (splices : List Splice) : Text × List Nat :=
  applyBelow t.length t (backward splices)

end Splice

end MarkupIds
