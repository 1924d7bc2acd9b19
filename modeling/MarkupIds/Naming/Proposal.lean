import MarkupIds.Naming.Conflict
import MarkupIds.Naming.Keyword
import MarkupIds.Rule

/-!
# Proposals

The identifier an element asks for before conflicts are resolved: a custom rule's answer, or the
words of the component, the element and its type.
-/

namespace MarkupIds.Naming

/-- Identifiers have at most 50 characters unless the scope says otherwise. -/
def defaultLimit : Int := 50

def boundOf (scope : Scope) : Limit :=
  some ((Limit.bound? scope.limit).getD defaultLimit)

/-- Joins words by the scope's strategy, qualifies them and cleans the result. -/
def assemble (scope : Scope) (entries : List Text) : Except Failure Text := do
  let joined ← scope.strategy.combine entries
  match scope.lead with
  | some (c :: cs) => return clean (boundOf scope) (scope.strategy.qualify (c :: cs) joined)
  | _ => return clean (boundOf scope) joined

/-- The words of an identifier by default: component, description, type. -/
def defaultEntries (scope : Scope) (e : Element) : List Text :=
  let component := (scope.component.map componentName).toList.filter (!·.isEmpty)
  let described := component ++ semanticParts e
  let type := elementType e
  if type.isEmpty || described.contains type then described else described ++ [type]

/-- The proposal together with the notices of the rules that were asked. -/
def proposeNoting (rules : List Rule) (scope : Scope) (e : Element) :
    Except Failure Text × List Notice :=
  let skipped := Rule.selectorNotices rules
  match Rule.firstAnswer e (scope.seeing rules) (Rule.matching rules e) with
  | (some answer, notices) => (.ok (clean (boundOf scope) answer), skipped ++ notices)
  | (none, notices) => (assemble scope (defaultEntries scope e), skipped ++ notices)

def propose (rules : List Rule) (scope : Scope) (e : Element) : Except Failure Text :=
  (proposeNoting rules scope e).1

/-- The first free identifier from a candidate on. -/
def settle (clock : Nat) (limit : Limit) (taken : List Text) (candidate : Text) :
    Except Failure Text :=
  match resolve clock limit taken candidate with
  | some id => .ok id
  | none => .error (.exhausted candidate)

/-- An identifier for an element that is not taken in the scope. -/
def generate (clock : Nat) (rules : List Rule) (scope : Scope) (e : Element) :
    Except Failure Text := do
  settle clock (boundOf scope) scope.taken (← propose rules scope e)

/-- Up to three identifiers for an element from different words, each free on its own. -/
def candidates (clock : Nat) (rules : List Rule) (scope : Scope) (e : Element) (count : Int) :
    Except Failure (List Text) := do
  let full ← propose rules scope e
  let fromContent ← match e.text? with
    | some content =>
      (assemble scope (contentKeywords content ++ [elementType e])).map ([·])
    | none => .ok []
  let fromAttributes ← match attributeKeywords e meaningfulAttributes with
    | [] => .ok []
    | words => (assemble scope (words.take 2 ++ [elementType e])).map ([·])
  let unique := Text.dedup (full :: fromContent ++ fromAttributes)
  let free ← unique.mapM (settle clock (boundOf scope) scope.taken)
  return Text.takeSigned count free

end MarkupIds.Naming
