import MarkupIds.Element
import MarkupIds.Text.Blank
import MarkupIds.Text.Case

/-!
# Selectors

A compound selector lists what an element must have; a selector is a list of alternatives.
-/

namespace MarkupIds

/-- One compound selector. Every part that is present must match. -/
structure Selector where
  tag : Option Text := none
  classes : List Text := []
  id : Option Text := none
  attributes : List (Text × Option Text) := []
deriving DecidableEq, Repr

/-- Class tokens of the first class attribute that is filled. -/
def Element.classes (e : Element) : List Text :=
  match (Attributes.filled? e.attributes "className".toList).or
      (Attributes.filled? e.attributes "class".toList) with
  | some value => Text.words value
  | none => []

namespace Selector

def tagMatches (s : Selector) (e : Element) : Bool :=
  s.tag.all (Text.lower e.tag == ·)

def idMatches (s : Selector) (e : Element) : Bool :=
  s.id.all (e.attribute? "id".toList == some ·)

def classesMatch (s : Selector) (e : Element) : Bool :=
  s.classes.all e.classes.contains

/-- An attribute test asks for the attribute and, if it names one, for its value. -/
def attributeMatches (e : Element) (test : Text × Option Text) : Bool :=
  match e.attribute? test.1 with
  | none => false
  | some value => test.2.all (value == ·)

def accepts (s : Selector) (e : Element) : Bool :=
  s.tagMatches e && s.idMatches e && s.classesMatch e && s.attributes.all (attributeMatches e)

end Selector

end MarkupIds
