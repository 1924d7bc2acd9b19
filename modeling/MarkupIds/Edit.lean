import MarkupIds.Diagnostic
import MarkupIds.Text.Numeral

/-!
# Attribute edits

An edit changes one attribute of one opening tag, found by the tag's position.
-/

namespace MarkupIds

inductive EditKind where
  | add
  | modify
  | remove
deriving DecidableEq, Repr

def EditKind.name : EditKind → Text
  | .add => "add-attribute".toList
  | .modify => "modify-attribute".toList
  | .remove => "remove-attribute".toList

def EditKind.ofName? (t : Text) : Option EditKind :=
  [EditKind.add, .modify, .remove].find? (·.name == t)

/-- Line and column as they are written. -/
def Position.key (p : Position) : Text :=
  Text.ofInt p.line ++ ':' :: Text.ofInt p.column

structure Edit where
  kind : EditKind
  element : Element
  /-- The attribute that changes. -/
  name : Text
  value : Text
  position : Position
deriving DecidableEq, Repr

/-- A source after edits, with the edits that took effect in the order they were made. -/
structure Revision where
  code : Text
  diagnostics : List Diagnostic := []
  applied : List Edit := []
deriving DecidableEq, Repr

namespace Revision

/-- The source as it was, with the reason why nothing could be changed. -/
def refused (source reason : Text) : Revision :=
  { code := source, diagnostics := [.failure reason] }

def failed (r : Revision) : Bool :=
  hasErrors r.diagnostics

end Revision

end MarkupIds
