import MarkupIds.Text.Case

/-!
# Log levels

The thresholds that an embedding application can ask for by name, in either case.
-/

namespace MarkupIds.Logging

def thresholds : List (String × Nat) := [
  ("CRITICAL", 50), ("FATAL", 50), ("ERROR", 40), ("WARNING", 30), ("WARN", 30), ("INFO", 20),
  ("DEBUG", 10), ("NOTSET", 0)]

def threshold? (level : Text) : Option Nat :=
  (thresholds.find? (·.1.toList == Text.upper level)).map (·.2)

def defaultLevel : Text := "INFO".toList

def lineFormat : Text :=
  "%(asctime)s - %(name)s - %(levelname)s - %(message)s".toList

end MarkupIds.Logging
