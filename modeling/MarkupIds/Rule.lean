import MarkupIds.Naming.Strategy
import MarkupIds.Selector.Reader

/-!
# Custom rules

A rule names the elements its selector accepts. Rules of higher priority are asked first, and
rules of one priority in the order they are given.
-/

namespace MarkupIds

/-- What a generator sees of the rules that it is listed with. -/
structure RuleHead where
  selector : Text
  priority : Int
deriving DecidableEq, Repr

/-- What is known about a file while its elements are named. -/
structure Scope where
  path : Text := "File.jsx".toList
  taken : List Text := []
  strategy : Naming.Strategy := .kebab
  lead : Option Text := none
  component : Option Text := none
  framework : Option Framework := none
  limit : Naming.Limit := none
  rules : List RuleHead := []

/-- An identifier for the elements that a selector accepts. No answer or an empty one leaves the
element to the next rule. -/
structure Rule where
  selector : Text
  generator : Element → Scope → Except Failure (Option Text)
  priority : Int := 0

def Rule.head (r : Rule) : RuleHead :=
  ⟨r.selector, r.priority⟩

/-- The scope in which the generators of some rules are asked. -/
def Scope.seeing (scope : Scope) (rules : List Rule) : Scope :=
  { scope with rules := rules.map Rule.head }

/-- A remark for the log. -/
inductive Notice where
  | skippedRule (reason : SelectorError)
  | failedRule (selector tag : Text) (reason : Failure)
  | unknownKey (key : Text)
  | missingFile (path : Text)
deriving DecidableEq, Repr

def Notice.message : Notice → Text
  | .skippedRule reason =>
    "Skipping custom rule with invalid selector: ".toList ++ reason.message
  | .failedRule selector tag reason =>
    "Custom rule '".toList ++ selector ++ "' failed for <".toList ++ tag ++ ">: ".toList ++
      reason.message
  | .unknownKey key => "Ignoring unknown configuration key: ".toList ++ key
  | .missingFile path =>
    "Config file not found at ".toList ++ path ++ ", using defaults".toList

namespace Rule

def accepts (r : Rule) (e : Element) : Except SelectorError Bool :=
  Selector.holds r.selector e

/-- The rules that accept an element, in the order they are asked. -/
def matching (rules : List Rule) (e : Element) : List Rule :=
  (rules.filter fun r => r.accepts e matches .ok true).mergeSort
    fun r s => s.priority ≤ r.priority

/-- A notice for each rule whose selector cannot be read. -/
def selectorNotices (rules : List Rule) : List Notice :=
  rules.filterMap fun r =>
    match Selector.read r.selector with
    | .error reason => some (.skippedRule reason)
    | .ok _ => none

/-- The first answer of some rules, with the failures met before it. -/
def firstAnswer (e : Element) (scope : Scope) : List Rule → Option Text × List Notice
  | [] => (none, [])
  | r :: rules =>
    match r.generator e scope with
    | .ok (some (c :: cs)) => (some (c :: cs), [])
    | .ok _ => firstAnswer e scope rules
    | .error reason =>
      let (answer, notices) := firstAnswer e scope rules
      (answer, .failedRule r.selector e.tag reason :: notices)

end Rule

end MarkupIds
