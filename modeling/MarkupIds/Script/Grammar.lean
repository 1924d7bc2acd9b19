import MarkupIds.Script.Grammar.Statements

/-!
# The grammar of scripts

A script is clean in a dialect if its whole text fits the form of scripts.
-/

namespace MarkupIds.Script

/-- The form of each symbol. -/
def grammar : Symbol → Shape
  | .type => Shape.type
  | .typeArguments => Shape.typeArguments
  | .typeParameters => Shape.typeParameters
  | .objectType => Shape.objectType
  | .parameters => Shape.parameters
  | .signature => Shape.signature
  | .pattern => Shape.pattern
  | .objectPattern => Shape.objectPattern
  | .expression => Shape.expression
  | .unit => Shape.unit
  | .primary => Shape.primary
  | .assignable => Shape.assignable
  | .afterAssignable => Shape.afterAssignable
  | .afterPrimary => Shape.afterPrimary
  | .afterOther => Shape.afterOther
  | .arrow => Shape.arrow
  | .construction => Shape.construction
  | .arguments => Shape.arguments
  | .template => Shape.template
  | .object => Shape.object
  | .block => Shape.block
  | .classTail => Shape.classTail
  | .element => Shape.element
  | .container => Shape.container
  | .decorator => Shape.decorator
  | .declaration => Shape.declaration
  | .statement => Shape.statement

/-- Steps enough for any script of the length: between two characters that are taken, the
grammar nests its forms less than this deep. -/
def stepsFor (source : Text) : Nat :=
  1000 * (source.length + 2)

/-- The nodes at the top of a script that is clean in the dialect. -/
def parse? (dialect : Dialect) (source : Text) : Option (List Node) :=
  (run grammar (stepsFor source) ⟨dialect, true, true, false⟩ Shape.script ⟨0, source⟩).map (·.1)

end MarkupIds.Script
