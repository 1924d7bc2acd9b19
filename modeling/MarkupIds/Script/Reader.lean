import MarkupIds.Path
import MarkupIds.Reading
import MarkupIds.Script.Parser

/-!
# Reading scripts with markup

Every tag with a plain name is an element; fragments and tags with compound names are not, but
what they enclose is.
-/

namespace MarkupIds.Script

namespace Node

def opening? (n : Node) : Option Node :=
  n.children.find? (·.kind == .opening)

/-- The name in an opening tag. -/
def name? (n : Node) : Option Node :=
  n.children.find? fun m => m.kind == .tagName || m.kind == .compoundName

/-- The name of an attribute node. -/
def attributeName (n : Node) (source : Text) : Text :=
  match n.children with
  | name :: _ => name.textIn source
  | [] => n.textIn source

/-- A text without its first and last character. -/
def inner (t : Text) : Text := (t.drop 1).dropLast

end Node

/-- Puts three dots in place of what the placeholders of a template hold. -/
def elidePlaceholders : (fuel : Nat) → Text → Text
  | 0, cs => cs
  | fuel + 1, cs =>
    match cs with
    | '$' :: '\x7b' :: rest =>
      match rest.dropWhile (· != '\x7d') with
      | _ :: after => "$\x7b...\x7d".toList ++ elidePlaceholders fuel after
      | [] => cs
    | c :: rest => c :: elidePlaceholders fuel rest
    | [] => []

/-- What stands for a value that is only known when the program runs. -/
def dynamic : Text := "\x7b...\x7d".toList

/-- The value of an expression in braces. -/
def containerValue (source : Text) : List Node → Text
  | [] => []
  | n :: _ =>
    let text := n.textIn source
    match n.kind with
    | .string => Node.inner text
    | .number | .boolean => text
    | .identifier => '\x7b' :: text ++ ['\x7d']
    | .template => elidePlaceholders text.length (Node.inner text)
    | _ => dynamic

/-- The value of an attribute: strings as they are written, constants by their text, all else
elided. -/
def attributeValue (source : Text) (n : Node) : Text :=
  match n.children with
  | _ :: value :: _ =>
    match value.kind with
    | .string => Node.inner (value.textIn source)
    | .container => containerValue source value.children
    | _ => dynamic
  | _ => []

def attributesOf (source : Text) (opening : Node) : Attributes :=
  (opening.children.filter (·.kind == .attribute)).foldl
    (fun attrs n => Attributes.set attrs (n.attributeName source) (attributeValue source n)) []

/-- The text directly inside an element, with single spaces between its words. -/
def contentOf (source : Text) (n : Node) : Option Text :=
  let texts := (n.children.filter (·.kind == .text)).map (·.textIn source)
  match Text.join [' '] (texts.flatMap Text.words) with
  | [] => none
  | content => some content

/-- The element of a node, if its tag has a plain name. -/
def elementOf? (source : Text) (n : Node) : Option Element :=
  match n.opening? with
  | none => none
  | some opening =>
    match opening.name? with
    | none => none
    | some name =>
      let tag := name.textIn source
      if name.kind == .tagName && !tag.isEmpty then
        some
          { tag
            attributes := attributesOf source opening
            content := contentOf source n
            position := some (.ofOffset source n.start)
            framework := some .react }
      else none

/-- The name of a declaration that starts with a capital and holds markup. -/
def declaredComponent? (source : Text) (binding : Option Node) (body : Option Node) :
    Option Text :=
  match binding, body with
  | some b, some v =>
    let name := b.textIn source
    if name.head?.any Text.isUpperChar && v.hasMarkup then some name else none
  | _, _ => none

/-- The component that a node at the top of a script declares. -/
def componentIn? (source : Text) (n : Node) : Option Text :=
  let bindingOf (n : Node) := n.children.find? (·.kind == .binding)
  match n.kind with
  | .functionDeclaration | .classDeclaration => declaredComponent? source (bindingOf n) (some n)
  | .variableList =>
    (n.children.filter (·.kind == .declarator)).findSome? fun d =>
      declaredComponent? source (bindingOf d) (d.children.find? (·.kind == .initialValue))
  | _ => none

def componentFromTree? (source path : Text) (tree : List Node) : Option Text :=
  (tree.findSome? (componentIn? source)).or (Path.component? path)

/-- The first component that a script declares at its top, or else that of its file. -/
def componentName? (source path : Text) (parser : Parser := .bundled) : Option Text :=
  match parser.tree? source path with
  | some tree => componentFromTree? source path tree
  | none => Path.component? path

def read (source path : Text) (parser : Parser := .bundled) : Reading :=
  let reading : Reading := { path, framework := .react, sourceLength := source.length }
  match parser.tree? source path with
  | none =>
    { reading with
      diagnostics := [.failure "Parse error: source contains syntax errors".toList] }
  | some tree =>
    { reading with
      elements := (Node.elementsOf tree).filterMap (elementOf? source)
      component := componentFromTree? source path tree }

end MarkupIds.Script
