import MarkupIds.Element

/-!
# Diagnostics

Findings attached to results. A result with an error-level finding is a failed result.
-/

namespace MarkupIds

inductive Severity where
  | error
  | warning
  | info
deriving DecidableEq, Repr

def Severity.name : Severity → Text
  | .error => "error".toList
  | .warning => "warning".toList
  | .info => "info".toList

structure Diagnostic where
  message : Text
  severity : Severity := .warning
  position : Option Position := none
deriving DecidableEq, Repr

def Diagnostic.failure (message : Text) : Diagnostic :=
  { message, severity := .error }

def hasErrors (ds : List Diagnostic) : Bool :=
  ds.any (·.severity == .error)

end MarkupIds
