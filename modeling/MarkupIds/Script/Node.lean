import MarkupIds.Text.Basic

/-!
# Syntax trees of scripts

Only the nodes that matter for markup and for component names are kept; everything else lets its
nodes through to the next node above.
-/

namespace MarkupIds.Script

inductive Kind where
  /-- A markup element, with or without a name, with or without children. -/
  | element
  /-- The opening tag up to its closing bracket. -/
  | opening
  | tagName
  /-- A tag name of several parts, which names no element. -/
  | compoundName
  | typeArguments
  | attribute
  | attributeName
  /-- An expression between braces in markup. -/
  | container
  | text
  | string
  | number
  | boolean
  | identifier
  | template
  | functionDeclaration
  | classDeclaration
  | variableList
  | declarator
  | binding
  | initialValue
  | other
deriving DecidableEq, Repr

/-- A stretch of a script, from offset `start` up to `stop`, with the nodes inside it. Comments are
no nodes. -/
inductive Node where
  | mk (kind : Kind) (start stop : Nat) (children : List Node)
deriving Repr

namespace Node

def kind : Node → Kind
  | .mk k _ _ _ => k

def start : Node → Nat
  | .mk _ s _ _ => s

def stop : Node → Nat
  | .mk _ _ e _ => e

def children : Node → List Node
  | .mk _ _ _ ns => ns

/-- The text of a node in its source. -/
def textIn (n : Node) (source : Text) : Text :=
  (source.drop n.start).take (n.stop - n.start)

mutual

/-- The element nodes inside a node and the node itself, in the order they start. -/
def elements : Node → List Node
  | .mk kind start stop children =>
    let inside := elementsOf children
    if kind == .element then .mk kind start stop children :: inside else inside

def elementsOf : List Node → List Node
  | [] => []
  | n :: ns => n.elements ++ elementsOf ns

end

def hasMarkup (n : Node) : Bool :=
  !n.elements.isEmpty

mutual

/-- The node with other offsets in place of its own. -/
def mapOffsets (f : Nat → Nat) : Node → Node
  | .mk kind start stop children => .mk kind (f start) (f stop) (mapOffsetsOf f children)

def mapOffsetsOf (f : Nat → Nat) : List Node → List Node
  | [] => []
  | n :: ns => n.mapOffsets f :: mapOffsetsOf f ns

end

end Node

end MarkupIds.Script
