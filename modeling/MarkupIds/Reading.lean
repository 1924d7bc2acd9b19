import MarkupIds.Diagnostic
import MarkupIds.OffsetMap

/-!
# Readings

What a reader finds in one file.
-/

namespace MarkupIds

structure Reading where
  path : Text
  framework : Framework
  /-- Number of characters of the file. -/
  sourceLength : Nat
  elements : List Element := []
  diagnostics : List Diagnostic := []
  component : Option Text := none
deriving DecidableEq, Repr

def Reading.failed (r : Reading) : Bool :=
  hasErrors r.diagnostics

/-- The position of the character at an offset, found by its first byte. -/
def Position.ofOffset (source : Text) (offset : Nat) : Position :=
  (OffsetMap.ofText source).position (Text.encode (source.take offset)).length

end MarkupIds
