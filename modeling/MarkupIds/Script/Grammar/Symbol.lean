import MarkupIds.Script.Form

/-!
# Symbols of the script grammar

The stretches of script that may contain themselves have names; the grammar gives each its form.
-/

namespace MarkupIds.Script

inductive Symbol where
  | type
  | typeArguments
  | typeParameters
  | objectType
  | parameters
  | signature
  | pattern
  | objectPattern
  | expression
  | unit
  | primary
  | assignable
  | afterAssignable
  | afterPrimary
  | afterOther
  | arrow
  | construction
  | arguments
  | template
  | object
  | block
  | classTail
  | element
  | container
  | decorator
  | declaration
  | statement
deriving DecidableEq, Repr

/-- A form of the script grammar. -/
abbrev Shape := Form Symbol

def the (s : Symbol) : Shape := .rule s

namespace Shape

open Form

/-- Any name. -/
def name : Shape := token nameLexeme

/-- A name in a place where the given words mean something else. Without types a name is never a
keyword. -/
def nameOtherThan (ws : List String) : Shape :=
  typed (token (nameBut (ws.map String.toList))) <|> untyped (token identLexeme)

/-- A name where nothing else may stand. -/
def plainName : Shape := nameOtherThan []

/-- Words that start an expression and are no names there. -/
def operandWords : List String :=
  ["await", "class", "delete", "false", "function", "import", "null", "super", "this", "true",
    "typeof", "using", "void", "yield"]

/-- Words that are names in expressions; where an expression may stand as well, they name no
type. -/
def softWords : List String :=
  ["async", "declare", "export", "get", "let", "module", "namespace", "override", "private",
    "protected", "public", "set", "static", "type"]

/-- Operators that are words. -/
def operatorWords : List String := ["as", "in", "instanceof", "satisfies"]

/-- The next token cannot start an operand, or starts another statement. -/
def beforeNoOperand : Shape :=
  look fun s cs =>
    (s.mayEnd && endsStatement s cs) ||
      match dropBlanks cs with
      | [] => true
      | c :: _ => !(isIdentChar c) && !("\"'([\x7b<!-+~@#/\\".toList.contains c)

/-- A name where an expression may stand. The word for a construction is a name if nothing is
constructed. -/
def operandName : Shape :=
  nameOtherThan ("new" :: operandWords) <|>
    typed (word "new" ++ absent (mark "." <|> mark "\x60") ++
      (beforeNoOperand <|> present (words operatorWords)))

/-- A name after a word that may be a name itself. -/
def nameAfterWord : Shape := nameOtherThan operatorWords

def string : Shape := token stringLexeme

def number : Shape := token numberLexeme

def privateName : Shape := token privateNameLexeme

/-- A single equals sign. -/
def equals : Shape := markNotBefore "=" "=>"

/-- The next token starts the name of a member. -/
def beforeMemberName : Shape :=
  look fun _ cs =>
    let next := dropBlanks cs
    (nameLexeme next).isSome || (numberLexeme next).isSome ||
      next.head?.any (fun c => ['"', '\'', '[', '#'].contains c)

/-- A word in front of a member's name that is not the name itself. -/
def modifier (w : String) : Shape :=
  word w ++ goesOn ++ (beforeMemberName <|> present (mark "*"))

/-- One of the words in front of a member's name, if there is one. -/
def modifierOf (ws : List String) : Shape :=
  opt (ws.foldr (fun w form => alt (modifier w) form) (look fun _ _ => false))

/-- The marks that only a method has. -/
def methodOnly : Shape :=
  let mark' := ((word "get" <|> word "set") ++ goesOn ++ beforeMemberName) <|> mark "*"
  (modifier "async" ++ opt mark') <|> mark'

/-- The name of a member: a name, a private name, a literal or an expression in brackets. -/
def memberName : Shape :=
  name <|> privateName <|> string <|> number <|>
    (mark "[" ++ enclosed (the .expression) ++ mark "]")

/-- Braces, brackets and the like around a form. -/
def braces (a : Shape) : Shape := mark "\x7b" ++ a ++ mark "\x7d"

def brackets (a : Shape) : Shape := mark "[" ++ a ++ mark "]"

def parens (a : Shape) : Shape := mark "(" ++ a ++ mark ")"

def colonType : Shape := mark ":" ++ the .type

end Shape

end MarkupIds.Script
