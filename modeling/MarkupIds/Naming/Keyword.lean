import MarkupIds.Naming.Vocabulary
import MarkupIds.Selector.Basic
import MarkupIds.Text.Word

/-!
# Keywords

Words of an element's attributes, content and classes that go into its identifier. Words of the
vocabulary come first.
-/

namespace MarkupIds.Naming

/-- The words over small letters and digits of a text in lower case. -/
def plainWords (t : Text) : List Text :=
  (Text.splitWhere (fun c => !(Text.isAsciiLower c || Text.isAsciiDigit c)) (Text.lower t)).filter
    (!·.isEmpty)

/-- Up to three vocabulary words of a content, or else its first two words. Words shorter than
3 or longer than 14 characters do not count. -/
def contentKeywords (t : Text) : List Text :=
  let words := (plainWords t).filter fun w => 3 ≤ w.length && w.length ≤ 14
  match words.filter isSemantic with
  | [] => words.take 2
  | semantic => semantic.take 3

/-- Up to three words of an attribute's value, those of the vocabulary first. -/
def valueKeywords (t : Text) : List Text :=
  let words := (plainWords t).filter (1 < ·.length)
  (words.filter isSemantic ++ words.filter (!isSemantic ·)).take 3

def attributeKeywords (e : Element) (names : List Text) : List Text :=
  names.flatMap fun name =>
    match Attributes.filled? e.attributes name with
    | some value => valueKeywords value
    | none => []

def classKeywords (e : Element) : List Text :=
  (e.classes.flatMap valueKeywords).take 2

/-- The words that describe an element, most telling first. Text says more than the type of an
element does, so an element with text leaves its type out. -/
def semanticParts (e : Element) : List Text :=
  let content := e.text?
  let names := meaningfulAttributes.filter fun n => !(content.isSome && n == "type".toList)
  attributeKeywords e names ++ (content.map contentKeywords).getD [] ++
    attributeKeywords e ariaAttributes ++ classKeywords e

/-- A short word for the kind of an element: the vocabulary's, or the last segment of the tag. -/
def elementType (e : Element) : Text :=
  let tag := Text.lower e.tag
  match typeNames.find? (·.1.toList == tag) with
  | some (_, name) => name.toList
  | none => (Text.split '-' tag).getLast?.getD tag

end MarkupIds.Naming
