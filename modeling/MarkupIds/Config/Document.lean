import MarkupIds.Config.Value
import MarkupIds.Number.Decimal
import MarkupIds.Yaml.Kind

/-!
# Values of documents

The value that a node of a document stands for.
-/

namespace MarkupIds.Config

open Yaml (Node Kind)

/-- Why a document has no value. -/
inductive DocumentError where
  | malformed
  /-- The text is no number. -/
  | noNumber (t : Text)
  /-- The text is no truth value. -/
  | noTruthValue (t : Text)
  /-- There is no such day. -/
  | noDay (t : Text)
deriving DecidableEq, Repr

namespace Value

/-! Scalars -/

/-- The places of a number of base sixty, the least first, added up. -/
def addSixtieths (parts : List Float) : Float :=
  (parts.foldl (fun (sum, base) x => (sum + x * base, base * 60)) ((0.0, 1.0) : Float × Float)).1

def readBase? (base : Nat) (t : Text) : Option Int := do
  if t.isEmpty then none
  return Int.ofNat (Text.foldDigits base (← t.mapM (Text.baseDigit? base)))

/-- The whole number of a text without separators and sign. -/
def readWhole? : Text → Option Int
  | ['0'] => some 0
  | '0' :: 'b' :: ds => readBase? 2 ds
  | '0' :: 'x' :: ds => readBase? 16 ds
  | '0' :: ds => readBase? 8 ds
  | t => do
    let parts ← (Text.split ':' t).mapM Text.readInt?
    return parts.foldl (fun sum n => sum * 60 + n) 0

def readPointed? (t : Text) : Option Float :=
  if t == ".inf".toList then some (1.0 / 0.0)
  else if t == ".nan".toList then some (0.0 / 0.0)
  else do
    let parts ← (Text.split ':' t).mapM Number.readFloat?
    match parts with
    | [x] => return x
    | parts => return addSixtieths parts.reverse

def ungrouped (t : Text) : Text :=
  t.filter (· != '_')

def isNegative (t : Text) : Bool :=
  t.head? == some '-'

def isLeapYear (y : Nat) : Bool :=
  y % 4 == 0 && (y % 100 != 0 || y % 400 == 0)

def daysIn (year month : Nat) : Nat :=
  match month with
  | 2 => if isLeapYear year then 29 else 28
  | 4 | 6 | 9 | 11 => 30
  | 1 | 3 | 5 | 7 | 8 | 10 | 12 => 31
  | _ => 0

def readDate? (t : Text) : Option Value := do
  let (y, m, d) ← Yaml.dateParts? t
  let number (t : Text) := Text.foldDigits 10 (t.filterMap (Text.baseDigit? 10))
  let (year, month, day) := (number y, number m, number d)
  if 1 ≤ year && 1 ≤ day && day ≤ daysIn year month then some (.date year month day) else none

def readBool? (t : Text) : Option Bool :=
  let word := Text.lower t
  if Yaml.isOneOf ["yes", "true", "on"] word then some true
  else if Yaml.isOneOf ["no", "false", "off"] word then some false
  else none

/-- The value of a scalar of a kind. -/
def ofScalar (kind : Kind) (t : Text) : Except DocumentError Value :=
  match kind with
  | .null => .ok .null
  | .text => .ok (.text t)
  | .bool =>
    match readBool? t with
    | some b => .ok (.bool b)
    | none => .error (.noTruthValue t)
  | .int =>
    let digits := ungrouped t
    match readWhole? (Yaml.unsigned digits) with
    | some n => .ok (.int (if isNegative digits then -n else n))
    | none => .error (.noNumber t)
  | .float =>
    let digits := Text.lower (ungrouped t)
    match readPointed? (Yaml.unsigned digits) with
    | some x => .ok (.float (if isNegative digits then -x else x))
    | none => .error (.noNumber t)
  | .date =>
    match readDate? t with
    | some v => .ok v
    | none => .error (.noDay t)
  | .merge | .value => .error .malformed

/-! Mappings -/

/-- The whole number that a key equals: truth values count as zero and one. -/
def wholeKey? : Value → Option Int
  | .int n => some n
  | .bool b => some (if b then 1 else 0)
  | .float x =>
    match Number.Dyadic.ofFloat? x with
    | some parts => if Float.ofInt parts.truncate == x then some parts.truncate else none
    | none => none
  | _ => none

/-- Whether two keys are the same. -/
def sameKey (a b : Value) : Bool :=
  match a, b with
  | .null, .null => true
  | .text s, .text t => s == t
  | .date y m d, .date y' m' d' => y == y' && m == m' && d == d'
  | a, b =>
    match wholeKey? a, wholeKey? b with
    | some m, some n => m == n
    | _, _ =>
      match a, b with
      | .float x, .float y => x == y
      | _, _ => false

/-- Lists and mappings cannot be keys. -/
def isKey : Value → Bool
  | .list _ | .mapping _ => false
  | _ => true

/-- Sets the value of a key; a key that is there keeps its place. -/
def put (entries : List (Value × Value)) (key value : Value) : List (Value × Value) :=
  if entries.any fun (k, _) => k.sameKey key then
    entries.map fun (k, v) => if k.sameKey key then (k, value) else (k, v)
  else entries ++ [(key, value)]

/-- Entries with each key once. -/
def uniqueEntries (entries : List (Value × Value)) : List (Value × Value) :=
  entries.foldl (fun done (k, v) => put done k v) []

mutual

/-- The value that a node stands for. -/
def ofNode : Node → Except DocumentError Value
  | .scalar tag t isPlain =>
    match Node.scalarKind? tag t isPlain with
    | some kind => ofScalar kind t
    | none => .error .malformed
  | .sequence tag items =>
    if Node.hasTag tag "seq" then do return .list (← ofNodes items) else .error .malformed
  | .mapping tag entries =>
    if Node.hasTag tag "map" then do
      let (merged, own) ← ofEntries entries
      return .mapping (uniqueEntries (merged ++ own))
    else .error .malformed

def ofNodes : List Node → Except DocumentError (List Value)
  | [] => .ok []
  | n :: ns => do return (← ofNode n) :: (← ofNodes ns)

/-- The entries that merge keys bring in, and those of the mapping itself. -/
def ofEntries : List (Node × Node) →
    Except DocumentError (List (Value × Value) × List (Value × Value))
  | [] => .ok ([], [])
  | (key, value) :: entries => do
    if key.isMerge then
      let brought ← mergedEntries value
      let (merged, own) ← ofEntries entries
      return (brought ++ merged, own)
    else
      let k ← ofKey key
      if !k.isKey then throw .malformed
      let v ← ofNode value
      let (merged, own) ← ofEntries entries
      return (merged, (k, v) :: own)

/-- The mark of a mapping's own value is a text where it is a key. -/
def ofKey : Node → Except DocumentError Value
  | .scalar tag t isPlain =>
    match Node.scalarKind? tag t isPlain with
    | some .value => .ok (.text t)
    | some kind => ofScalar kind t
    | none => .error .malformed
  | .sequence _ _ | .mapping _ _ => .error .malformed

/-- The entries of what a merge key holds: a mapping, or mappings of which the earlier ones
count more. -/
def mergedEntries : Node → Except DocumentError (List (Value × Value))
  | .mapping _ entries => do
    let (merged, own) ← ofEntries entries
    return merged ++ own
  | .sequence _ items => mergedItems items
  | .scalar _ _ _ => .error .malformed

def mergedItems : List Node → Except DocumentError (List (Value × Value))
  | [] => .ok []
  | .mapping _ entries :: ns => do
    let (merged, own) ← ofEntries entries
    return (← mergedItems ns) ++ merged ++ own
  | _ :: _ => .error .malformed

end

/-- The value of a document; an empty one has the absent value. -/
def ofDocument (t : Text) : Except DocumentError Value :=
  match Node.ofText? t with
  | none => .error .malformed
  | some none => .ok .null
  | some (some root) => ofNode root

end Value

end MarkupIds.Config
