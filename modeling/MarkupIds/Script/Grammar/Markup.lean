import MarkupIds.Script.Grammar.Expressions

/-!
# Markup in scripts

Closing tags need not repeat the name they close.
-/

namespace MarkupIds.Script.Shape

open Form

def tagWord : Shape := token tagNameLexeme

def tagName : Shape :=
  (node .tagName tagWord ++ absent (mark "." <|> mark ":") ++
      opt (typed (node .typeArguments (the .typeArguments)))) <|>
    (node .compoundName (name ++ mark "." ++ sepBy (mark ".") name) ++ absent (mark ":") ++
      opt (typed (node .typeArguments (the .typeArguments)))) <|>
    node .compoundName (tagWord ++ mark ":" ++ tagWord)

/-- A constant in braces that is an attribute's value as it stands. -/
def constant : Shape :=
  (node .string string <|> node .number number <|>
      node .boolean (words ["true", "false"]) <|>
      (absent (word "undefined") ++ node .identifier operandName) <|>
      node .template (the .template)) ++
    present (mark "\x7d")

def container : Shape :=
  node .container
    (braces (enclosed (opt
      (constant <|> node .other spread <|> node .other expressions <|>
        node .other (atLeastOne remark)))))

def attributeValue : Shape :=
  node .string (token markupStringLexeme) <|> the .container <|> the .element

def markupAttribute : Shape :=
  node .attribute
      (node .attributeName (tagWord ++ opt (mark ":" ++ tagWord)) ++
        opt (mark "=" ++ attributeValue)) <|>
    the .container

def child : Shape :=
  nodeHere .text (glued markupTextLexeme) <|> glued referenceLexeme <|> the .container <|>
    (absent (mark "</") ++ the .element) <|> remark

def closingTag : Shape :=
  mark "</" ++ opt (tagWord ++ ((mark ":" ++ tagWord) <|> many (mark "." ++ name))) ++ mark ">"

def element : Shape :=
  only Dialect.hasMarkup (node .element (
    (node .opening (mark "<" ++ tagName ++ many markupAttribute) ++
      (mark "/>" <|> (mark ">" ++ many child ++ closingTag))) <|>
    (node .opening (mark "<") ++ (typed (mark "/>") <|> (mark ">" ++ many child ++ closingTag)))))

end MarkupIds.Script.Shape
