import MarkupIds.Config.Basic
import MarkupIds.Edit
import MarkupIds.Naming.Proposal

/-!
# Planning

Eligible elements are named in the order they stand in the file. Each name is reserved before
the next element is named, so names are unique in the file.
-/

namespace MarkupIds

/-- How proposals are made and conflicts resolved. -/
structure Namer where
  propose : List Rule → Scope → Element → Except Failure Text
  settle : Naming.Limit → List Text → Text → Except Failure Text

def Namer.standard (clock : Nat) : Namer where
  propose := Naming.propose
  settle := Naming.settle clock

/-- Tags that never get an identifier. -/
def nonVisualTags : List Text :=
  Text.split ' ' "html head meta title style script link".toList

/-- Whether an element gets an identifier: it is of an included type, is shown, and keeps no
identifier of its own. -/
def eligible (config : Config) (e : Element) : Except Failure Bool :=
  let tag := Text.lower e.tag
  if config.preserveExisting && Attributes.has e.attributes config.attributeName then .ok false
  else if nonVisualTags.contains tag then .ok false
  else config.includes.map (·.contains tag)

/-- The identifiers that the elements of a file carry already. -/
def existingIds (attributeName : Text) (es : List Element) : List Text :=
  Text.dedup (es.filterMap fun e => Attributes.filled? e.attributes attributeName)

/-- The scope of a file with some identifiers taken. -/
def Config.scope (config : Config) (path : Text) (component : Option Text)
    (framework : Option Framework) (taken : List Text) : Scope where
  path := path
  taken := taken
  strategy := config.strategy
  lead := config.lead
  component := component
  framework := framework
  limit := some config.limit

structure Plan where
  edits : List Edit := []
  diagnostics : List Diagnostic := []
  conflicts : Nat := 0
  /-- All identifiers taken after planning. -/
  taken : List Text

namespace Plan

def unplaced (e : Element) : Diagnostic :=
  { message := "Element <".toList ++ e.tag ++ "> has no source position, skipping".toList }

def conflict (base value : Text) (at' : Position) : Diagnostic :=
  { message := "Identifier '".toList ++ base ++ "' already in use, using '".toList ++ value ++
      ['\'']
    severity := .info
    position := some at' }

/-- Names one eligible element. Its own identifier is free for it. -/
def name (namer : Namer) (config : Config) (scope : Scope) (p : Plan) (e : Element)
    (place : Position) : Except Failure Plan := do
  let current := e.attribute? config.attributeName
  let others := match current with
    | some (c :: cs) => p.taken.filter (· != c :: cs)
    | _ => p.taken
  let base ← namer.propose config.rules { scope with taken := p.taken } e
  let value ← namer.settle scope.limit others base
  let noted := if value == base then p
    else { p with
      conflicts := p.conflicts + 1
      diagnostics := p.diagnostics ++ [conflict base value place] }
  let reserved := { noted with taken := p.taken.insert value }
  if current == some value then return reserved
  let edit : Edit :=
    { kind := if current.isSome then .modify else .add
      element := e
      name := config.attributeName
      value
      position := place }
  return { reserved with edits := p.edits ++ [edit] }

def step (namer : Namer) (config : Config) (scope : Scope) (p : Plan) (e : Element) :
    Except Failure Plan := do
  if ← eligible config e then
    match e.position with
    | some place => p.name namer config scope e place
    | none => return { p with diagnostics := p.diagnostics ++ [unplaced e] }
  else return p

/-- Plans one edit for each eligible element that needs one. -/
def ofElements (namer : Namer) (config : Config) (scope : Scope) (es : List Element) :
    Except Failure Plan :=
  es.foldlM (step namer config scope) { taken := scope.taken }

end Plan

end MarkupIds
