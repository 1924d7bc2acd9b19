import MarkupIds.Script.Grammar.Markup

/-!
# Statements

A declaration at the top of a script becomes a node of its own; other statements are wrapped, so
that what they declare inside does not count as declared at the top.
-/

namespace MarkupIds.Script.Shape

open Form

def block : Shape := braces (many (the .statement))

/-! Declarations -/

def functionDeclaration : Shape :=
  node .functionDeclaration
    (opt (word "async" ++ goesOn) ++ word "function" ++ node .binding plainName ++
      endingPlain (the .signature) ++ the .block)

def generatorDeclaration : Shape :=
  node .other
    (opt (word "async" ++ goesOn) ++ word "function" ++ mark "*" ++ plainName ++
      endingPlain (the .signature) ++ the .block)

def functionSignature : Shape :=
  typed (node .other
    (opt (word "async" ++ goesOn) ++ word "function" ++ plainName ++
      endingPlain (the .signature ++ semicolon)))

def classDeclaration : Shape :=
  node .classDeclaration
      (many (the .decorator) ++ word "class" ++ node .binding className ++ the .classTail) <|>
    typed (node .other
      (many (the .decorator) ++ word "abstract" ++ word "class" ++ className ++ the .classTail))

/-- What is declared of the name in `binding`, up to the comma or semicolon after it. -/
def declaratorOf (binding : Shape) : Shape :=
  node .declarator
    (node .binding binding ++
      endingPlain ((typed (goesOn ++ mark "!" ++ colonType) ++ stop) <|>
        (opt (typed colonType) ++
          (ending (equals ++ node .initialValue (the .expression) ++ stop) <|> stop))))
where
  stop : Shape := present (mark "," <|> semicolon)

def declaratorsOf (name : Shape) : Shape :=
  commaSep (declaratorOf (structuredPattern <|> name)) ++ opt (mark ";")

def variableList : Shape :=
  node .variableList
    ((word "var" ++ declaratorsOf plainName) <|>
      (word "const" ++ declaratorsOf (nameOtherThan ["enum"])) <|>
      (word "let" ++ goesOn ++ declaratorsOf nameAfterWord))

def usingDeclaration : Shape :=
  untyped (node .other
    (opt (word "await") ++ word "using" ++ goesOn ++ declaratorsOf plainName))

def typeAlias : Shape :=
  word "type" ++ goesOn ++ nameAfterWord ++ opt (the .typeParameters) ++ equals ++
    endingPlain (the .type ++ semicolon)

def interface : Shape :=
  word "interface" ++ plainName ++ opt (the .typeParameters) ++
    opt (word "extends" ++ enclosedPlain (commaSep namedParent)) ++ the .objectType
where
  namedParent : Shape := plainName ++ many (mark "." ++ name) ++ opt (the .typeArguments)

def enumeration : Shape :=
  opt (word "const") ++ word "enum" ++ plainName ++
    braces (opt (commaSep (memberName ++ opt initialValue) ++ opt (mark ",")))

def moduleDeclaration : Shape :=
  namespaceDeclaration <|> (word "module" ++ goesOn ++ moduleName ++ moduleBody)

def ambient : Shape :=
  word "declare" ++ goesOn ++
    (unending (the .declaration) <|> (word "global" ++ the .block) <|>
      (word "module" ++ mark "." ++ name ++ endingPlain (colonType ++ semicolon)))

def importAlias : Shape :=
  word "import" ++ nameOtherThan ["type", "typeof"] ++ equals ++ nameOtherThan ["require"] ++
    many (mark "." ++ name) ++ endingPlain semicolon

def declaration : Shape :=
  functionDeclaration <|> generatorDeclaration <|> functionSignature <|> classDeclaration <|>
    typed (node .other enumeration) <|> variableList <|> usingDeclaration <|>
    typed (node .other (typeAlias <|> interface <|> moduleDeclaration <|> ambient <|> importAlias))

/-! Imports and exports -/

def attributesClause : Shape := opt (endingPlain goesOn ++ word "with" ++ the .object)

def exportName : Shape := name <|> string

def specifiersOf (specifier : Shape) : Shape :=
  braces (opt (commaSep specifier) ++ opt (mark ","))

def importSpecifier : Shape :=
  let from' := (exportName ++ word "as" ++ plainName) <|> nameOtherThan ["default", "typeof"]
  (typed (word "type" ++ absent (word "as") ++ from' <|> (word "typeof" ++ from'))) <|> from'

def exportSpecifier : Shape :=
  let as' := opt (word "as" ++ exportName)
  (typed (words ["type", "typeof"] ++ exportName ++ as')) <|>
    (absent (typed (words ["type", "typeof"])) ++ exportName ++ as')

def fromClause : Shape := word "from" ++ string

def importClause : Shape :=
  let all := (mark "*" ++ word "as" ++ plainName) <|> specifiersOf importSpecifier
  all <|> (nameOtherThan ["typeof"] ++ opt (mark "," ++ all))

def importSource : Shape :=
  string <|> (importClause ++ fromClause) <|>
    typed (nameOtherThan ["type", "typeof"] ++ equals ++ word "require" ++ parens string)

def importStatement : Shape :=
  node .other
    (word "import" ++
      (importSource <|> typed (words ["type", "typeof"] ++ importSource)) ++
      attributesClause ++ endingPlain semicolon)

/-- The names that are exported, and perhaps the module that they come from. -/
def exportClause : Shape :=
  specifiersOf exportSpecifier ++ opt (endingPlain goesOn ++ fromClause) ++ endingPlain semicolon

def exportAll : Shape :=
  mark "*" ++ opt (word "as" ++ exportName) ++ fromClause ++ endingPlain semicolon

def exportStatement : Shape :=
  ((atLeastOne (the .decorator) ++ word "export") <|> (word "export" ++ ending goesOn)) ++
    (exportAll <|> exportClause <|>
      (word "default" ++
        (the .declaration <|> node .other (ending (the .expression ++ semicolon)))) <|>
      unending (the .declaration) <|>
      typed (word "type" ++ exportClause) <|>
      typed (node .other (equals ++ ending (the .expression ++ semicolon))) <|>
      typed (word "as" ++ word "namespace" ++ plainName ++ endingPlain semicolon))

/-! Control -/

def condition : Shape := parenthesized

def loopHeader : Shape :=
  let bound := structuredPattern <|> plainName
  let binding :=
    (word "var" ++ bound ++ opt (equals ++ the .unit)) <|> (words ["const", "let"] ++ bound)
  let target := absent (words ["const", "var"]) ++ (the .pattern <|> (the .primary ++ many member))
  let link := word "in" <|> word "of"
  parens (enclosed (((binding ++ link) <|> (target ++ link)) ++ expressions)) <|>
    (mark "(" ++
      (unending variableList <|> (enclosed expressions ++ mark ";") <|> mark ";") ++
      enclosed (opt expressions ++ mark ";" ++ opt expressions) ++ mark ")")

def switchCase : Shape :=
  ((word "case" ++ untilColon expressions) <|> word "default") ++ mark ":" ++
    many (absent (words ["case", "default"]) ++ the .statement)

/-- A part of a statement that its word leads, if the word is there. -/
def ledBy (w : String) (a : Shape) : Shape := (word w ++ a) <|> absent (word w)

def control : Shape :=
  (word "if" ++ condition ++ the .statement ++ ledBy "else" (the .statement)) <|>
    (word "for" ++ opt (word "await") ++ loopHeader ++ the .statement) <|>
    (word "while" ++ condition ++ the .statement) <|>
    (word "do" ++ the .statement ++ word "while" ++ condition ++ opt (mark ";")) <|>
    (word "switch" ++ condition ++ braces (many switchCase)) <|>
    (word "try" ++ the .block ++
      ledBy "catch"
        (opt (parens ((structuredPattern <|> plainName) ++
          opt (typed (enclosedPlain colonType)))) ++ the .block) ++
      ledBy "finally" (the .block)) <|>
    (word "with" ++ condition ++ the .statement) <|>
    (word "return" ++ (endingPlain semicolon <|> (absent remark ++ expressions ++ semicolon))) <|>
    (word "throw" ++ expressions ++ semicolon) <|>
    (words ["break", "continue"] ++
      endingPlain (semicolon <|> (plainName ++ semicolon))) <|>
    (word "debugger" ++ endingPlain semicolon)

/-- What leads an export or a declaration and nothing else. -/
def declarationMark : Shape :=
  (word "export" ++ goesOn ++ (mark "*" <|> word "as")) <|>
    (word "let" ++ goesOn ++ mark "[") <|>
    (opt (word "async" ++ goesOn) ++ word "function" ++ opt (mark "*") ++ plainName) <|>
    (word "class" ++ className)

/-- What starts a statement of another kind than an expression. -/
def statementMark : Shape :=
  typed (words statementWords) <|> untyped (word "using") <|> blockBrace <|> declarationMark

def statement : Shape :=
  remarks ++
    ending (node .other (the .block) <|> mark ";" <|> importStatement <|> exportStatement <|>
      the .declaration <|> node .other control <|>
      (absent statementMark ++
        (node .other (absent (word "undefined") ++ operandName ++ mark ":" ++ the .statement) <|>
          node .other (expressions ++ semicolon))))

/-- A whole script. -/
def script : Shape :=
  opt (token interpreterLexeme) ++ many (the .statement) ++ remarks ++
    look fun _ cs => (dropBlanks cs).isEmpty

end MarkupIds.Script.Shape
