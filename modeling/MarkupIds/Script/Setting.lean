/-!
# Settings

A piece of script is read in a setting: the dialect, and what may come after the piece. The same
text may end a statement in one setting and go on in another.
-/

namespace MarkupIds.Script

/-- The kinds of script: with markup, with types, or with both. -/
inductive Dialect where
  | markup
  | typedMarkup
  | typed
deriving DecidableEq, Repr

namespace Dialect

def hasTypes : Dialect → Bool
  | .markup => false
  | .typedMarkup | .typed => true

def hasMarkup : Dialect → Bool
  | .typed => false
  | .markup | .typedMarkup => true

end Dialect

structure Setting where
  dialect : Dialect
  /-- A semicolon that is not written may come next. -/
  mayEnd : Bool
  /-- An operator may come next, as it may after an operand but not after a mere type or name. -/
  mayOperate : Bool
  /-- A colon comes after it, as after the first branch of a choice. -/
  beforeColon : Bool
deriving DecidableEq, Repr

end MarkupIds.Script
