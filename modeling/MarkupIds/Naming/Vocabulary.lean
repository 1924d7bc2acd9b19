import MarkupIds.Text.Basic

/-!
# Vocabulary

The words that say most about an element, and the short names of element types.
-/

namespace MarkupIds.Naming

private def wordList (t : String) : List Text :=
  Text.split ' ' t.toList

def actionWords : List Text :=
  wordList "click submit cancel close open save delete edit add remove"

def navigationWords : List Text :=
  wordList "nav menu link breadcrumb tab page home back next"

def formWords : List Text :=
  wordList "form input field select option checkbox radio textarea label"

def contentWords : List Text :=
  wordList "title heading text content description summary detail"

def layoutWords : List Text :=
  wordList "header footer sidebar main container wrapper section"

def statusWords : List Text :=
  wordList "success error warning info loading disabled active selected"

def semanticWords : List Text :=
  actionWords ++ navigationWords ++ formWords ++ contentWords ++ layoutWords ++ statusWords

def isSemantic (word : Text) : Bool :=
  semanticWords.contains word

/-- Tags whose element type has a name of its own. -/
def typeNames : List (String × String) := [
  ("button", "btn"), ("input", "input"), ("select", "select"), ("textarea", "textarea"),
  ("form", "form"), ("div", "container"), ("span", "text"), ("img", "image"), ("a", "link"),
  ("h1", "heading"), ("h2", "heading"), ("h3", "heading"), ("h4", "heading"),
  ("h5", "heading"), ("h6", "heading"), ("p", "paragraph"), ("ul", "list"), ("ol", "list"),
  ("li", "item"), ("table", "table"), ("tr", "row"), ("td", "cell"), ("th", "header")]

/-- Attributes whose values say what an element is for. -/
def meaningfulAttributes : List Text :=
  wordList "name id type role title alt placeholder"

def ariaAttributes : List Text :=
  wordList "aria-label aria-describedby aria-labelledby role"

end MarkupIds.Naming
