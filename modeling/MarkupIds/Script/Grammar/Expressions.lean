import MarkupIds.Script.Grammar.Types

/-!
# Expressions

Operators are not grouped by strength: the tree keeps markup and names only, which stand in the
same order either way.
-/

namespace MarkupIds.Script.Shape

open Form

def expressions : Shape := commaSep (the .expression)

def spread : Shape := mark "..." ++ the .expression

def initialValue : Shape := equals ++ enclosed (the .expression)

/-- A comment of older markup. It may stand where no operator and no end of statement may come. -/
def remark : Shape :=
  token (lineRemarkLexeme "<!--".toList) <|> token (lineRemarkLexeme "-->".toList)

def remarks : Shape := many remark

def optionalChain : Shape :=
  token (literalNotBefore "?.".toList Text.isAsciiDigit)

def memberMark : Shape := mark "." <|> optionalChain

def member : Shape :=
  (memberMark ++ (name <|> privateName)) <|>
    (opt optionalChain ++ brackets (enclosed expressions))

/-- The mark that says a value is there. -/
def presence : Shape := typed (goesOn ++ markNotBefore "!" "=")

/-! Bindings and parameters -/

/-- What is left of a list, or one part of it with a value in case it is missing. -/
def bound : Shape :=
  (mark "..." ++ the .pattern) <|> (the .pattern ++ opt initialValue)

def arrayPattern : Shape := brackets (commaGaps bound)

def patternMember : Shape :=
  (memberName ++ mark ":" ++ bound) <|> (mark "..." ++ the .pattern) <|>
    (plainName ++ opt initialValue) <|>
    ((arrayPattern <|> the .objectPattern) ++ initialValue)

def objectPattern : Shape := braces (commaGaps patternMember)

/-- Lists and objects that values are bound to by their parts. -/
def structuredPattern : Shape := the .objectPattern <|> arrayPattern

/-- What a value may be bound to. -/
def pattern : Shape :=
  ((structuredPattern <|> operandName) ++ absent (member <|> presence)) <|>
    ((operandName <|> word "this" <|> word "super") ++ atLeastOne (member <|> presence))

/-- A word in front of a parameter that is not its name. -/
def parameterModifier (ws : List String) : Shape :=
  opt (words ws ++ absent (mark ":" <|> mark "," <|> mark ")" <|> mark "=" <|> mark "?"))

/-- The mark of a parameter that may be missing. No comment follows it. -/
def omissible : Shape :=
  mark "?" ++ look fun _ cs => (cs.dropWhile isGap).head?.any (":),".toList.contains ·)

def typedParameter : Shape :=
  many (the .decorator) ++ parameterModifier accessWords ++ parameterModifier ["override"] ++
    parameterModifier ["readonly"] ++
    ((mark "..." ++ the .pattern ++ opt omissible ++ opt (colonType ++ opt initialValue)) <|>
      (((word "this" ++ absent (member <|> presence)) <|> the .pattern) ++ opt omissible ++
        opt colonType ++ opt initialValue))

def parameter : Shape := typed typedParameter <|> untyped bound

def parameters : Shape :=
  parens (enclosedPlain (opt (commaSep parameter ++ opt (mark ","))))

def signature : Shape :=
  opt (typed (the .typeParameters)) ++ the .parameters ++ opt (typed colonResult)

/-! Functions and classes -/

def arrowHead : Shape :=
  let head :=
    ((absent (word "undefined") ++ operandName) <|> enclosedPlain (the .signature)) ++ mark "=>"
  (word "async" ++ goesOn ++ head) <|> head

/-- Words that start a statement and no expression. -/
def statementWords : List String :=
  ["abstract", "break", "const", "continue", "debugger", "do", "enum", "for", "if", "interface",
    "return", "switch", "throw", "try", "var", "while", "with"]

/-- An opening brace here is that of a block, not of an object. -/
def blockBrace : Shape :=
  mark "\x7b" ++
    (words (statementWords ++ operandWords) <|>
      (operandName ++ (mark "," <|> mark "\x7d" <|> equals)))

def arrowBody : Shape :=
  (the .block ++ the .afterPrimary) <|> (absent blockBrace ++ the .expression)

def arrow : Shape := arrowHead ++ arrowBody

def functionExpression : Shape :=
  opt (word "async" ++ goesOn) ++ word "function" ++ opt (mark "*") ++ opt plainName ++
    enclosedPlain (the .signature) ++ the .block

/-- The words in front of a member that only types have. -/
def bodyModifiers : Shape :=
  typed propertyModifiers <|> untyped (modifierOf ["static"])

/-- A word in front of a member's name that only types have. -/
def memberWord : Shape :=
  (accessWords ++ ["override", "readonly"]).foldr (fun w form => alt (modifier w) form)
    (look fun _ _ => false)

/-- A method whose name has words, marks or decorators in front. -/
def objectMethod : Shape :=
  present (methodOnly <|> mark "@" <|> modifier "static" <|> typed memberWord) ++
    opt (untyped (many (the .decorator))) ++
    enclosedPlain (bodyModifiers ++ opt methodOnly ++ memberName ++ opt (typed (mark "?")) ++
      the .signature) ++
    the .block

def objectMember : Shape :=
  spread <|>
    (memberName ++ ((mark ":" ++ the .expression) <|> (methodSuffix ++ the .block))) <|>
    objectMethod <|> plainName
where
  methodSuffix : Shape := opt (typed (mark "?")) ++ enclosedPlain (the .signature)

def object : Shape := braces (enclosed (commaGaps objectMember))

def array : Shape := brackets (enclosed (commaGaps (spread <|> the .expression)))

def decoratorName : Shape := plainName ++ many (mark "." ++ name)

def decoratorCall : Shape :=
  decoratorName ++ opt (opt (typed (the .typeArguments)) ++ the .arguments)

def decorator : Shape :=
  mark "@" ++ (typed (parens decoratorCall) <|> decoratorCall)

/-! The bodies of classes -/

/-- The value of a field, or nothing, up to the field's end. -/
def fieldEnd : Shape :=
  let stop := semicolon <|> typed (mark ",")
  ending (equals ++ the .expression ++ stop) <|> stop

def typedField : Shape :=
  opt ((modifier "declare" ++ modifierOf accessWords) <|>
      (modifierOf accessWords ++ modifierOf ["declare"])) ++
    ((modifier "static" ++ modifierOf ["override"] ++ modifierOf ["readonly"]) <|>
      (modifier "override" ++ modifierOf ["readonly"]) <|>
      (word "abstract" ++ modifierOf ["readonly"]) <|>
      (modifier "readonly" ++ opt (modifier "abstract")) <|>
      word "accessor" <|> empty) ++
    keyedName ++ opt (mark "?" <|> (goesOn ++ mark "!")) ++ opt colonType ++ fieldEnd

def field : Shape :=
  typed typedField <|> untyped (modifierOf ["static"] ++ memberName ++ fieldEnd)

/-- The name and the signature of a method. -/
def methodHead : Shape :=
  let rest := memberName ++ opt (typed (mark "?"))
  absent (typed (modifierOf accessWords ++
      (words ["abstract", "accessor"] <|> (word "readonly" ++ word "abstract")))) ++
    bodyModifiers ++
    ((methodOnly ++ rest ++ the .signature) <|> (rest ++ goesOn ++ the .signature))

def signatureEnd : Shape := semicolon <|> mark ","

def abstractMethod : Shape :=
  let rest := memberName ++ opt (mark "?")
  modifierOf accessWords ++ word "abstract" ++ modifierOf ["override"] ++
    absent (modifier "async") ++
    ((methodOnly ++ rest ++ the .signature) <|> (rest ++ goesOn ++ the .signature)) ++ signatureEnd

def classMember : Shape :=
  endingPlain (mark ";" <|> (word "static" ++ goesOn ++ the .block) <|>
    (atLeastOne (the .decorator) ++ ((methodHead ++ the .block ++ opt semicolon) <|> field)) <|>
    (methodHead ++ ((the .block ++ opt semicolon) <|> typed signatureEnd)) <|>
    typed (abstractMethod <|> (indexSignature ++ signatureEnd)) <|> field)

/-- The class that is extended, where no brace of an object follows. -/
def ancestor : Shape :=
  (the .primary ++ the .afterPrimary ++ opt (typed (the .typeArguments)) ++
      present (mark "\x7b" <|> mark "," <|> typed (word "implements"))) <|>
    (the .expression ++ opt (typed (the .typeArguments)))

def heritage : Shape :=
  opt (word "extends" ++ enclosed (ancestor ++ many (typed (mark ",") ++ ancestor))) ++
    opt (typed (word "implements" ++ enclosedPlain (commaSep (the .type))))

/-- A class after its name. -/
def classTail : Shape :=
  opt (typed (the .typeParameters)) ++ heritage ++ braces (many classMember)

def className : Shape := nameOtherThan ["extends", "implements"]

def classExpression : Shape :=
  many (the .decorator) ++ word "class" ++ opt className ++ the .classTail

/-! Operands -/

def template : Shape :=
  mark "\x60" ++
    many (glued templateLexeme <|> glued escapeLexeme <|>
      (glued (literal "$\x7b".toList) ++ enclosed expressions ++ mark "\x7d")) ++
    glued (literal "\x60".toList)

def parenthesized : Shape :=
  parens (enclosed (the .expression ++
    (typed colonType <|> many (mark "," ++ the .expression))))

/-- Operands that any assignment may follow. -/
def assignable : Shape := operandName <|> parenthesized

def structured : Shape := array <|> the .object

def otherPrimary : Shape :=
  string <|> number <|> the .template <|> token patternLexeme <|> classExpression <|>
    words ["this", "super", "true", "false", "null"] <|>
    (word "import" ++
      (present (mark "(" <|> optionalChain <|> typed (the .typeArguments ++ mark "(")) <|>
        (mark "." ++ word "meta")))

def primary : Shape :=
  the .construction <|> functionExpression <|> the .assignable <|> structured <|> otherPrimary

def arguments : Shape := parens (enclosed (commaGaps (spread <|> the .expression)))

/-- Type arguments in an expression. -/
def callTypes : Shape :=
  typed (absent (angle ++ words ("import" :: softWords)) ++ the .typeArguments)

/-- A bracket that opens type arguments, as what it holds first is no operand. -/
def typesBracket : Shape :=
  typed (markNotBefore "<" "<=" ++
    (bracketsOfType <|>
      (present (word "typeof") ++ listedType ++ (mark "," <|> markNotBefore ">" ">="))))

/-- What calls any expression. -/
def call : Shape :=
  the .arguments <|>
    (present typesBracket ++ the .typeArguments ++
      (the .arguments <|> absent (mark "\x60" <|> equals))) <|>
    (callTypes ++
      (the .arguments <|> present (words operatorWords) <|>
        (absent (mark "\x60") ++ beforeNoOperand ++ absent equals)))

/-- What calls a primary expression only. -/
def primaryCall : Shape :=
  (optionalChain ++ opt (typed (the .typeArguments)) ++ the .arguments) <|> the .template

/-- What is constructed, and its arguments. With types, a bracket after it always opens type
arguments, and a construction comes in its place only with a member, a call or a template. -/
def constructed : Shape :=
  goesOn ++ absent (words operatorWords) ++ absent (typed (word "new" ++ absent (mark "."))) ++
    (the .arrow <|> (the .primary ++ many (member <|> presence))) ++
    (the .arguments <|>
      typed (the .typeArguments ++ (the .arguments <|> absent (mark "("))) <|>
      absent (mark "(" <|> typed angle))

def construction : Shape :=
  word "new" ++
    ((mark "." ++ word "target") <|> constructed <|>
      typed (goesOn ++ word "new" ++ constructed ++ present (member <|> primaryCall <|> call))) ++
    the .afterPrimary

def assignmentOperator : Shape :=
  equals <|>
    ([">>>=", "**=", "<<=", ">>=", "&&=", "||=", "??=", "+=", "-=", "*=", "/=", "%=", "&=",
      "|=", "^="].foldr (fun t form => alt (mark t) form) (look fun _ _ => false))

def update : Shape := goesOn ++ (mark "++" <|> mark "--")

/-- What may follow an operand that can be assigned to. -/
def afterAssignable : Shape :=
  (assignmentOperator ++ the .expression) <|> the .afterPrimary

/-- What may follow any other primary expression. -/
def afterPrimary : Shape :=
  (member ++ the .afterAssignable) <|> (presence ++ the .afterAssignable) <|>
    (primaryCall ++ the .afterPrimary) <|> (call ++ the .afterPrimary) <|>
    (update ++ the .afterOther) <|> empty

/-- What may follow an expression that is not primary. -/
def afterOther : Shape :=
  (member ++ the .afterAssignable) <|> (presence ++ the .afterAssignable) <|>
    (call ++ the .afterPrimary) <|> (update ++ the .afterOther) <|> empty

def unary : Shape :=
  mark "!" <|> mark "~" <|> mark "++" <|> mark "--" <|> mark "-" <|> mark "+" <|>
    words ["typeof", "void", "delete", "await"]

def moduleName : Shape := string <|> (nameAfterWord ++ many (mark "." ++ name))

def moduleBody : Shape := the .block <|> absent (mark "\x7b")

def namespaceDeclaration : Shape :=
  word "namespace" ++ goesOn ++ moduleName ++ moduleBody

/-- A bracket here is that of type parameters, not of a tag. -/
def parameterBracket : Shape :=
  typed (mark "<" ++
    (word "const" <|> (plainName ++ (word "extends" <|> (mark ":" ++ words typeWords)))))

/-- The result type of a function whose parameters stand before it. Where a colon ends the
expression, another must follow the function. -/
def resultOfArrow : Shape :=
  typed (mark ":" ++ enclosedPlain returnType ++ mark "=>" ++
    (look (fun s _ => !s.beforeColon) <|> (arrowBody ++ mark ":")))

/-- What a generator hands out: the values of another one, a value or nothing. -/
def yielding : Shape :=
  word "yield" ++
    ((mark "*" ++ the .expression) <|>
      (goesOn ++ absent (words operatorWords <|> remark) ++ the .expression) <|>
      (absent (mark "(" <|> mark "[" <|> mark "<") ++ the .afterOther))

def unit : Shape :=
  remarks ++
    ((unary ++ the .unit) <|> yielding <|>
      typed (word "using" ++ the .pattern ++ equals ++ the .expression) <|>
      (parenthesized ++ absent (mark "=>" <|> resultOfArrow) ++ the .afterAssignable) <|>
      the .arrow <|>
      the .construction <|> (functionExpression ++ the .afterPrimary) <|>
      typed (namespaceDeclaration ++ the .afterOther) <|>
      (operandName ++ the .afterAssignable) <|>
      (structured ++ absent equals ++ the .afterPrimary) <|>
      (structuredPattern ++ equals ++ the .expression) <|>
      (otherPrimary ++ the .afterPrimary) <|>
      (privateName ++ present (word "in")) <|>
      (absent parameterBracket ++ the .element ++ the .afterOther) <|>
      only (· == .typed) (enclosedPlain (the .typeArguments) ++ the .unit))

/-! Operators -/

def binaryOperator : Shape :=
  ([("===", ""), ("!==", ""), (">>>", "="), ("**", "="), ("&&", "="), ("||", "="), ("??", "="),
    ("<<", "="), (">>", ">="), ("<=", ""), (">=", ""), ("==", "="), ("!=", "="), ("+", "+="),
    ("-", "-="), ("*", "*="), ("/", "="), ("%", "="), ("&", "&="), ("|", "|="), ("^", "="),
    ("<", "<="), (">", ">=")].foldr (fun (t, stops) form => alt (markNotBefore t stops) form)
      (words ["instanceof", "in"]))

/-- The question mark of a choice, which is neither optional chaining nor a default. -/
def questionMark : Shape :=
  token fun cs =>
    match cs with
    | '?' :: '?' :: _ => none
    | '?' :: '.' :: c :: _ => if Text.isAsciiDigit c then some 1 else none
    | '?' :: _ => some 1
    | _ => none

/-- A bracket here opens type arguments and is no operator. -/
def typesOnly : Shape := (callTypes ++ mark "(") <|> typesBracket

def binaryTail : Shape :=
  (absent typesOnly ++ binaryOperator ++ the .unit) <|>
    typed (goesOn ++ (word "as" <|> word "satisfies") ++ the .type ++ the .afterOther)

def choiceTail : Shape :=
  questionMark ++ untilColon (the .expression) ++ mark ":" ++ the .expression

def expression : Shape := the .unit ++ many binaryTail ++ opt choiceTail

end MarkupIds.Script.Shape
