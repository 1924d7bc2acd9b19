import MarkupIds.Text.Blank
import MarkupIds.Text.Case
import MarkupIds.Text.Word

/-!
# Identifiers

Any text becomes an identifier over `a`–`z`, `0`–`9`, `-` and `_` that neither starts nor ends
with a separator.
-/

namespace MarkupIds.Naming

/-- A bound on length. A missing bound and zero both mean no bound. -/
abbrev Limit := Option Int

def Limit.bound? (limit : Limit) : Option Int :=
  limit.filter (· != 0)

def isIdChar (c : Char) : Bool :=
  Text.isAsciiLower c || Text.isAsciiDigit c || c == '_' || c == '-'

def isSeparator (c : Char) : Bool :=
  c == '-' || c == '_'

/-- The identifier used when nothing else is left. -/
def fallback : Text := "element".toList

/-- Cuts to the bound and drops separators that the cut leaves at the end. -/
def fit (limit : Limit) (t : Text) : Text :=
  match limit.bound? with
  | some m =>
    if m < t.length then Text.dropTailWhile isSeparator (Text.takeSigned m t) else t
  | none => t

/-- The identifier of a text before its length is bounded, possibly empty. -/
def scrub (t : Text) : Text :=
  let marked := (Text.lower t).map fun c => if isIdChar c then c else '-'
  Text.trimWhile isSeparator
    (Text.squeeze '_' (Text.squeeze '-' (marked.dropWhile Text.isAsciiDigit)))

/-- The identifier of a text: lower case, separators squeezed and trimmed, length bounded. -/
def clean (limit : Limit) (t : Text) : Text :=
  match fit limit (scrub t) with
  | [] => fallback
  | id => id

/-- Puts a hyphen where a word starts inside a name: before a capital after a small letter or
digit, and before the last capital of a run when a small letter follows. -/
def splitCamel : Text → Text
  | a :: b :: cs =>
    let smallBefore := Text.isAsciiLower a || Text.isAsciiDigit a
    let wordStart := Text.isAsciiUpper a && (cs.head?.any Text.isAsciiLower)
    if Text.isAsciiUpper b && (smallBefore || wordStart) then a :: '-' :: splitCamel (b :: cs)
    else a :: splitCamel (b :: cs)
  | cs => cs

/-- Drops the word `component` from the end, also in front of a last line feed. -/
def dropComponentWord (t : Text) : Text :=
  let word := "component".toList.reverse
  match t.reverse with
  | '\n' :: rev =>
    match Text.after? word rev with
    | some rest => ('\n' :: rest).reverse
    | none => t
  | rev =>
    match Text.after? word rev with
    | some rest => rest.reverse
    | none => t

/-- The words of a component's name with hyphens between them. -/
def componentName (t : Text) : Text :=
  let named := dropComponentWord (Text.lower (splitCamel t))
  let isOther (c : Char) := !(Text.isAsciiLower c || Text.isAsciiDigit c)
  Text.trimWhile (· == '-') (Text.squash isOther '-' named)

end MarkupIds.Naming
