import MarkupIds.OffsetMap
import MarkupIds.Path
import MarkupIds.Script.Grammar
import MarkupIds.Text.Case

/-!
# Parsers of scripts

The program leaves parsing to a parser it is given. Which dialects are tried, and that the first
clean tree counts, is its own choice.
-/

namespace MarkupIds.Script

/-- A parser of scripts, with a grammar for each dialect. -/
structure Parser where
  /-- The nodes at the top of a source without syntax errors. Their spans count the bytes of the
  source. -/
  parse? : Dialect → (source : Text) → Option (List Node)

/-- The dialects a file may be written in, the likeliest first. -/
def dialectsFor (path : Text) : List Dialect :=
  match String.ofList (Text.lower (Path.extension path)) with
  | ".js" | ".jsx" => [.markup, .typedMarkup]
  | ".tsx" => [.typedMarkup]
  | ".ts" => [.typed, .typedMarkup]
  | _ => [.typedMarkup, .markup, .typed]

namespace Parser

/-- The parser that runs the grammar of this project. -/
def bundled : Parser where
  parse? dialect source :=
    (Script.parse? dialect source).map
      (Node.mapOffsetsOf fun i => (Text.encode (source.take i)).length)

/-- The tree of a script in the first dialect in which it is clean. From here on spans count
characters. -/
def tree? (parser : Parser) (source path : Text) : Option (List Node) :=
  ((dialectsFor path).findSome? (parser.parse? · source)).map
    (Node.mapOffsetsOf (OffsetMap.ofText source).charOffset)

end Parser

end MarkupIds.Script
