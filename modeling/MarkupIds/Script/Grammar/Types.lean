import MarkupIds.Script.Grammar.Symbol

/-!
# Types
-/

namespace MarkupIds.Script.Shape

open Form

/-! Names -/

def builtinTypes : List String :=
  ["any", "number", "boolean", "string", "symbol", "void", "unknown", "never", "object"]

/-- Words that start a type and never name one. -/
def typeWords : List String :=
  ["abstract", "const", "false", "import", "infer", "keyof", "new", "null", "readonly", "this",
    "true", "typeof", "undefined", "unique"] ++ builtinTypes

/-- The bracket that opens type arguments. Where an operator may come, it is not the start of a
longer one. -/
def angle : Shape :=
  look (fun s cs =>
    let next := dropBlanks cs
    !(s.mayOperate && (Text.startsWith "<<".toList next || Text.startsWith "<=".toList next))) ++
    mark "<"

def typeArguments : Shape :=
  angle ++ unending (commaSep (the .type) ++ opt (mark ",")) ++ mark ">"

/-- A bracket after the name of a type always opens type arguments. -/
def namedType : Shape :=
  nameOtherThan typeWords ++ many (mark "." ++ name) ++ (the .typeArguments <|> absent angle)

def builtinType : Shape :=
  words builtinTypes <|> (word "unique" ++ word "symbol")

/-! Results and parameters -/

/-- What a function says of an argument: `x is T`. -/
def predicate : Shape :=
  (nameOtherThan typeWords <|> word "this" <|> builtinType) ++ goesOn ++ word "is" ++ the .type

/-- The type of a function's result, or what the function says of an argument. -/
def returnType : Shape :=
  (word "asserts" ++ (predicate <|> nameOtherThan typeWords <|> word "this")) <|>
    predicate <|> (absent (word "asserts") ++ the .type)

def colonResult : Shape := mark ":" ++ returnType

def typeParameter : Shape :=
  opt (word "const") ++ nameOtherThan ["const"] ++
    opt ((word "extends" <|> mark ":") ++ the .type) ++ opt (equals ++ the .type)

def typeParameters : Shape :=
  mark "<" ++ enclosedPlain (commaSep typeParameter ++ opt (mark ",")) ++ mark ">"

/-- Brackets that are those of a type, where a value might be read as well: the first thing in them
is a built-in type, or the only member of an object type, after which a semicolon could stand. -/
def bracketsOfType : Shape :=
  let signed := opt (mark "-" <|> mark "+") ++ number
  let alone := (mark "\x7b" ++ name) <|> name <|> string <|> signed
  present (mark "[" <|> mark "(" <|> mark "\x7b") ++
    many (mark "[" <|> mark "(" <|> (mark "\x7b" ++ memberName ++ mark ":")) ++
    ((words builtinTypes ++ (mark "," <|> mark "]" <|> mark ")")) <|>
      (alone ++ endingPlain (look endsStatement) ++ present (mark "\x7d")))

def functionType : Shape :=
  absent (present (mark "(") ++ bracketsOfType) ++ opt (the .typeParameters) ++
    the .parameters ++ mark "=>" ++ returnType

def constructorType : Shape :=
  opt (word "abstract") ++ word "new" ++ opt (the .typeParameters) ++ the .parameters ++
    mark "=>" ++ the .type

/-! Types that say where they come from -/

/-- What an imported module holds: `import("m").a.b`. -/
def importType : Shape :=
  let step := the .arguments <|> (mark "." ++ (name <|> privateName))
  word "import" ++ step ++ many (goesOn ++ step)

/-- The type of a value: `typeof a.b`. -/
def typeQuery : Shape :=
  let member := (mark "." <|> mark "?.") ++ (name <|> privateName)
  let index := mark "?." ++ brackets (builtinType <|> string <|> number)
  word "typeof" ++
    ((word "import" ++ (the .arguments <|> present angle)) <|> word "this" <|> name) ++
    many (goesOn ++ (member <|> index <|> the .arguments)) ++ opt (the .typeArguments)

/-! Compound types -/

/-- `[key: string]: T` and `[K in T as U]?: V`. -/
def indexSignature : Shape :=
  opt (opt (mark "-" <|> mark "+") ++ word "readonly") ++
    brackets (enclosedPlain ((operandName ++ colonType) <|>
      (nameOtherThan (operandWords ++ softWords ++ typeWords) ++ word "in" ++ the .type ++
        opt (word "as" ++ the .type)))) ++
    (colonType <|> ((mark "-?:" <|> mark "+?:" <|> mark "?:") ++ the .type))

def accessWords : List String := ["public", "private", "protected"]

/-- The words in front of a member that is no method. -/
def propertyModifiers : Shape :=
  modifierOf accessWords ++ modifierOf ["static"] ++ modifierOf ["override"] ++
    modifierOf ["readonly"]

/-- The name of a member in a place where members may also be named by a key. -/
def keyedName : Shape :=
  absent (mark "[" ++ operandName ++ word "in") ++ memberName

/-- The name and the signature of a method in a type. After a mark of its own nothing but a
method can follow. -/
def methodSignature : Shape :=
  let rest := keyedName ++ opt (mark "?")
  propertyModifiers ++
    ((methodOnly ++ unending rest ++ the .signature) <|> (rest ++ goesOn ++ the .signature))

def constructSignature : Shape :=
  opt (word "abstract") ++ word "new" ++ opt (the .typeParameters) ++ the .parameters ++
    opt colonType

def typeMember : Shape :=
  indexSignature <|>
    constructSignature <|>
    (absent (word "abstract" <|> (word "new" ++ (mark "(" <|> mark "<"))) ++ methodSignature) <|>
    (absent (word "abstract") ++ propertyModifiers ++ keyedName ++ opt (mark "?") ++
      opt colonType) <|>
    the .signature

def objectType : Shape :=
  let separator := mark "," <|> semicolon
  (mark "\x7b|" <|> mark "\x7b") ++
    endingPlain (opt (opt (mark "," <|> mark ";") ++ sepBy separator typeMember ++
      opt separator)) ++
    (mark "|\x7d" <|> mark "\x7d")

def tupleMember : Shape :=
  (mark "..." ++ operandName ++ colonType) <|>
    (mark "..." ++ absent (words softWords) ++ the .type) <|>
    (nameOtherThan typeWords ++ opt (mark "?") ++ colonType) <|>
    (the .type ++ opt (mark "?"))

def tuple : Shape :=
  brackets (enclosedPlain (opt (commaSep tupleMember) ++ opt (mark ",")))

/-- A type in a template: one that no word or arrow leads. -/
def templateSlot : Shape :=
  absent (((word "readonly" ++ the .type) <|> functionType <|> constructorType <|> importType) ++
    mark "\x7d") ++
    the .type

def templateType : Shape :=
  mark "\x60" ++
    many (glued templateLexeme <|>
      (glued (literal "$\x7b".toList) ++ enclosedPlain templateSlot ++ mark "\x7d")) ++
    glued (literal "\x60".toList)

/-! Types as a whole -/

/-- A type in parentheses, which might be parameters up to their end. -/
def parenthesizedType : Shape :=
  parens (enclosedPlain (absent (words softWords <|>
    (word "import" ++ opt (the .arguments) ++ mark ".")) ++ the .type))

def typePrimary : Shape :=
  parenthesizedType <|> the .objectType <|> tuple <|>
    string <|> (opt (mark "-" <|> mark "+") ++ number) <|> templateType <|> mark "*" <|>
    words ["this", "true", "false", "null", "undefined", "const"] <|>
    typeQuery <|> builtinType <|> namedType

/-- The mark between types that are joined; where an operator may come, a doubled one is that. -/
def typeJoin : Shape :=
  look (fun s cs =>
    let next := dropBlanks cs
    !(s.mayOperate && (Text.startsWith "||".toList next || Text.startsWith "&&".toList next))) ++
    (markNotBefore "|" "\x7d" <|> mark "&")

/-- A primary type, in lists and looked up in. -/
def listedType : Shape :=
  many (mark "?" <|> (word "keyof" ++ many typeJoin)) ++ typePrimary ++
    many (goesOn ++ brackets (enclosedPlain (opt (the .type))))

def typeOperand : Shape :=
  (word "readonly" ++ the .type) <|>
    (word "infer" ++ plainName ++ opt (goesOn ++ word "extends" ++ the .type)) <|>
    constructorType <|> functionType <|> importType <|> listedType

/-- Operands joined by bars and ampersands, perhaps with a condition. -/
def type : Shape :=
  many typeJoin ++ sepBy (typeJoin ++ many typeJoin) typeOperand ++
    opt (goesOn ++ word "extends" ++ unending (the .type ++ mark "?" ++ the .type) ++ mark ":" ++
      the .type)

end MarkupIds.Script.Shape
