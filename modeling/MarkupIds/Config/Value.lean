import MarkupIds.Number.Double
import MarkupIds.Rule
import MarkupIds.Text.Quoted

/-!
# Configuration values

A configuration is written without types: any value may stand under any key. Besides plain data
it may hold functions, and strategies and rules that are already built.
-/

namespace MarkupIds.Config

/-- A value under a configuration key. -/
inductive Value where
  | null
  | bool (b : Bool)
  | int (n : Int)
  | float (x : Float)
  | text (t : Text)
  | date (year month day : Nat)
  | list (items : List Value)
  | mapping (entries : List (Value × Value))
  /-- A function from text to text. -/
  | transform (f : Text → Except Failure Text)
  /-- A function that names elements. -/
  | generator (f : Element → Scope → Except Failure (Option Text))
  /-- A strategy that is already built. -/
  | strategy (type : Value) (transform : Value)
  /-- A rule that is already built. -/
  | rule (selector generator priority : Value)

namespace Value

instance : Inhabited Value := ⟨.null⟩

/-- Nothing, zero and the empty collections count as absent. -/
def isFilled : Value → Bool
  | .null => false
  | .bool b => b
  | .int n => n != 0
  | .float x => x != 0.0
  | .text t => !t.isEmpty
  | .list items => !items.isEmpty
  | .mapping entries => !entries.isEmpty
  | _ => true

mutual

/-- The form of a value in messages. -/
def shown : Value → Text
  | .null => "None".toList
  | .bool true => "True".toList
  | .bool false => "False".toList
  | .int n => Text.ofInt n
  | .float x => Number.showFloat x
  | .text t => Text.quoted t
  | .date y m d =>
    "datetime.date(".toList ++
      Text.join ", ".toList [Text.decimal y, Text.decimal m, Text.decimal d] ++ [')']
  | .list items => '[' :: Text.join ", ".toList (showItems items) ++ [']']
  | .mapping entries => '\x7b' :: Text.join ", ".toList (showEntries entries) ++ ['\x7d']
  | .transform _ | .generator _ => "<function>".toList
  | .strategy _ _ => "<strategy>".toList
  | .rule _ _ _ => "<rule>".toList

def showItems : List Value → List Text
  | [] => []
  | v :: vs => v.shown :: showItems vs

def showEntries : List (Value × Value) → List Text
  | [] => []
  | (k, v) :: entries => (k.shown ++ ": ".toList ++ v.shown) :: showEntries entries

end

/-- A value as plain text: a text stands for itself. -/
def plain : Value → Text
  | .text t => t
  | .date y m d =>
    let two (n : Nat) := (if n < 10 then ['0'] else []) ++ Text.decimal n
    List.replicate (4 - (Text.decimal y).length) '0' ++ Text.decimal y ++
      '-' :: two m ++ '-' :: two d
  | v => v.shown

/-- The answer a value stands for: none if it counts as absent. -/
def answer? (v : Value) : Option Text :=
  if v.isFilled then some v.plain else none

/-- The kind of a value in messages. -/
def kindName : Value → Text
  | .null => "NoneType".toList
  | .bool _ => "bool".toList
  | .int _ => "int".toList
  | .float _ => "float".toList
  | .text _ => "str".toList
  | .date _ _ _ => "datetime.date".toList
  | .list _ => "list".toList
  | .mapping _ => "dict".toList
  | .transform _ | .generator _ => "function".toList
  | .strategy _ _ => "NamingStrategy".toList
  | .rule _ _ _ => "CustomRule".toList

/-- The entry under a text key. -/
def lookup (entries : List (Value × Value)) (key : String) : Option Value :=
  entries.findSome? fun
    | (.text k, v) => if k == key.toList then some v else none
    | _ => none

end Value

end MarkupIds.Config
