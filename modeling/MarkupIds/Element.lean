import MarkupIds.Text.Basic

/-!
# Elements

What the readers hand out for each opening tag of a component source.
-/

namespace MarkupIds

/-- The two kinds of component source. -/
inductive Framework where
  | react
  | vue
deriving DecidableEq, Repr

def Framework.name : Framework → Text
  | .react => "react".toList
  | .vue => "vue".toList

def Framework.ofName? (t : Text) : Option Framework :=
  [Framework.react, .vue].find? (·.name == t)

/-- Where an opening tag starts. Lines and columns count from one, offsets from zero. -/
structure Position where
  line : Int
  column : Int
  offset : Int := 0
deriving DecidableEq, Repr

/-- Attributes in order of first appearance, each name once. -/
abbrev Attributes := List (Text × Text)

namespace Attributes

def get? (attrs : Attributes) (name : Text) : Option Text :=
  (attrs.find? (·.1 == name)).map (·.2)

def has (attrs : Attributes) (name : Text) : Bool :=
  attrs.any (·.1 == name)

/-- Gives `name` a value: in its old place if it is there, at the end otherwise. -/
def set : Attributes → Text → Text → Attributes
  | [], name, value => [(name, value)]
  | (n, v) :: attrs, name, value =>
    if n == name then (n, value) :: attrs else (n, v) :: set attrs name value

/-- The value of `name` unless it is missing or empty. -/
def filled? (attrs : Attributes) (name : Text) : Option Text :=
  (get? attrs name).filter (!·.isEmpty)

end Attributes

/-- An opening tag together with the plain text it encloses, if any. -/
structure Element where
  tag : Text
  attributes : Attributes := []
  content : Option Text := none
  position : Option Position := none
  framework : Option Framework := none
deriving DecidableEq, Repr

namespace Element

def attribute? (e : Element) (name : Text) : Option Text :=
  Attributes.get? e.attributes name

/-- The content unless it is missing or empty. -/
def text? (e : Element) : Option Text :=
  e.content.filter (!·.isEmpty)

end Element

end MarkupIds
