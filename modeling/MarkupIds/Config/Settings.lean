import MarkupIds.Config.Value

/-!
# Settings

A partial configuration laid over the defaults. Keys are known in two spellings, and of two
entries for one key the later counts; settings that are not converted stay as they are given.
-/

namespace MarkupIds.Config

/-- The keys that are known. -/
inductive Key where
  | attributeName
  | frameworks
  | namingStrategy
  | lead
  | includeElementTypes
  | customRules
  | conflictResolution
  | maxIdLength
  | preserveExisting
deriving DecidableEq, Repr

namespace Key

/-- The spellings of a key. -/
def spellings : Key → List String
  | .attributeName => ["attribute_name", "attributeName"]
  | .frameworks => ["frameworks"]
  | .namingStrategy => ["naming_strategy", "namingStrategy"]
  | .lead => ["prefix"]
  | .includeElementTypes => ["include_element_types", "includeElementTypes"]
  | .customRules => ["custom_rules", "customRules"]
  | .conflictResolution => ["conflict_resolution", "conflictResolution"]
  | .maxIdLength => ["max_id_length", "maxIdLength"]
  | .preserveExisting => ["preserve_existing", "preserveExisting"]

def all : List Key :=
  [.attributeName, .frameworks, .namingStrategy, .lead, .includeElementTypes, .customRules,
    .conflictResolution, .maxIdLength, .preserveExisting]

def ofValue? : Value → Option Key
  | .text t => all.find? fun k => k.spellings.any (·.toList == t)
  | _ => none

end Key

/-- Why settings cannot be made. -/
inductive SettingsError where
  | unsupportedStrategy (v : Value)
  | unsupportedRule (v : Value)
  /-- The value has no entries to go through. -/
  | noEntries (v : Value)
  | missingKey (key : String)
  /-- The text is no numeral. -/
  | noNumeral (t : Text)
  /-- The number has no whole part because it is infinite. -/
  | infinite
  /-- The value stands for no number. -/
  | noNumber (v : Value)
  /-- The settings are no mapping. -/
  | noMapping (v : Value)
  /-- The file at the path holds no mapping. -/
  | fileWithoutMapping (path : Text)
  /-- The keys of the file are of kinds that have no common order. -/
  | unorderedKeys
  /-- The file cannot be read. -/
  | malformedFile

/-- The text of the errors that have one. -/
def SettingsError.message? : SettingsError → Option Text
  | .unsupportedStrategy v => some ("Unsupported naming strategy: ".toList ++ v.shown)
  | .unsupportedRule v => some ("Unsupported custom rule: ".toList ++ v.shown)
  | .fileWithoutMapping path =>
    some ("Config file ".toList ++ path ++ " must contain a mapping".toList)
  | _ => none

/-- A custom rule as it is given. -/
structure RuleSetting where
  selector : Value
  generator : Value
  priority : Value

structure Settings where
  attributeName : Value := .text "data-testid".toList
  frameworks : List Value := [.text "react".toList, .text "vue".toList]
  strategyType : Value := .text "kebab-case".toList
  /-- The function of a custom strategy, or nothing. -/
  transform : Value := .null
  lead : Value := .text "test".toList
  includeElementTypes : List Value :=
    ["button", "input", "select", "textarea", "form", "a", "div", "span"].map (.text ·.toList)
  customRules : List RuleSetting := []
  conflictResolution : Value := .text "suffix".toList
  maxIdLength : Int := 50
  preserveExisting : Value := .bool true

namespace Settings

/-- The value that counts for a key: the last one given. -/
def given? (entries : List (Value × Value)) (key : Key) : Option Value :=
  entries.reverse.findSome? fun (k, v) => if Key.ofValue? k == some key then some v else none

/-- A notice for each key that is not known. -/
def notices (entries : List (Value × Value)) : List Notice :=
  entries.filterMap fun (k, _) =>
    if (Key.ofValue? k).isNone then some (.unknownKey k.plain) else none

/-- The entries of a value: items, characters or keys. Absent values have none. -/
def entriesOf (v : Value) : Except SettingsError (List Value) :=
  if !v.isFilled then .ok []
  else match v with
    | .list items => .ok items
    | .text t => .ok (t.map fun c => .text [c])
    | .mapping entries => .ok (entries.map (·.1))
    | v => .error (.noEntries v)

/-- The whole number that a value stands for; fractions are cut off. -/
def wholeNumber (v : Value) : Except SettingsError Int :=
  match v with
  | .int n => .ok n
  | .bool b => .ok (if b then 1 else 0)
  | .float x =>
    match Number.Dyadic.ofFloat? x with
    | some parts => .ok parts.truncate
    | none => .error (if x.isNaN then .noNumeral (Number.showFloat x) else .infinite)
  | .text t =>
    match Text.readInt? t with
    | some n => .ok n
    | none => .error (.noNumeral t)
  | v => .error (.noNumber v)

/-- The type and the function of a strategy. -/
def readStrategy (v : Value) : Except SettingsError (Value × Value) :=
  match v with
  | .strategy type transform => .ok (type, transform)
  | .text t => .ok (.text t, .null)
  | .mapping entries =>
    let transform := (Value.lookup entries "custom_transform").getD .null
    .ok ((Value.lookup entries "type").getD (.text "kebab-case".toList),
      if transform.isFilled then transform
      else (Value.lookup entries "customTransform").getD .null)
  | v => .error (.unsupportedStrategy v)

def readRule (v : Value) : Except SettingsError RuleSetting :=
  let required (entries : List (Value × Value)) (key : String) : Except SettingsError Value :=
    match Value.lookup entries key with
    | some v => .ok v
    | none => .error (.missingKey key)
  match v with
  | .rule selector generator priority => .ok ⟨selector, generator, priority⟩
  | .mapping entries => do
    let selector ← required entries "selector"
    let generator ← required entries "generator"
    let priority ← wholeNumber ((Value.lookup entries "priority").getD (.int 0))
    return ⟨selector, generator, .int priority⟩
  | v => .error (.unsupportedRule v)

def readRules (v : Value) : Except SettingsError (List RuleSetting) := do
  (← entriesOf v).mapM readRule

/-- Converts the value of a key, or takes the default. -/
def orDefault (value? : Option Value) (default : α) (convert : Value → Except SettingsError α) :
    Except SettingsError α :=
  match value? with
  | some v => convert v
  | none => .ok default

/-- The defaults with the given entries laid over them. -/
def ofEntries (entries : List (Value × Value)) : Except SettingsError Settings := do
  let default : Settings := {}
  let given := given? entries
  let (strategyType, transform) ←
    orDefault (given .namingStrategy) (default.strategyType, default.transform) readStrategy
  let customRules ← orDefault (given .customRules) default.customRules readRules
  let frameworks ← orDefault (given .frameworks) default.frameworks entriesOf
  let includeElementTypes ←
    orDefault (given .includeElementTypes) default.includeElementTypes entriesOf
  let maxIdLength ← orDefault (given .maxIdLength) default.maxIdLength wholeNumber
  return {
    attributeName := (given .attributeName).getD default.attributeName
    frameworks
    strategyType
    transform
    lead := (given .lead).getD default.lead
    includeElementTypes
    customRules
    conflictResolution := (given .conflictResolution).getD default.conflictResolution
    maxIdLength
    preserveExisting := (given .preserveExisting).getD default.preserveExisting }

/-- Settings from a value, with the notices on its keys. An absent value gives the defaults. -/
def ofValue (v : Value) : Except SettingsError (Settings × List Notice) :=
  if !v.isFilled then .ok ({}, [])
  else match v with
    | .mapping entries => do return (← ofEntries entries, notices entries)
    | v => .error (.noMapping v)

/-- The element types in lower case. -/
def includes (s : Settings) : Except Failure (List Text) :=
  s.includeElementTypes.mapM fun
    | .text t => .ok (Text.lower t)
    | v => .error (.notText v.kindName)

end Settings

end MarkupIds.Config
