import MarkupIds.Path
import MarkupIds.Reading
import MarkupIds.Sfc.Comment
import MarkupIds.Sfc.Section
import MarkupIds.Sfc.Tag

/-!
# Reading single-file components

Each opening tag on a line of the template that is not self-closing is an element. Tags over
several lines are not seen.
-/

namespace MarkupIds.Sfc

/-- The elements on one masked line that starts at `lineOffset` in the file. -/
def lineElements (lineNumber lineOffset : Nat) (masked : Text) : List Element :=
  ((openTags (masked.length + 1) 0 masked).filter (!·.2.1.selfClosing)).map
    fun (column, tag, after) =>
      { tag := tag.name
        attributes := readAttributes tag.attributeText
        content := content? tag.name after
        position := some ⟨lineNumber, column + 1, lineOffset + column⟩
        framework := some .vue }

/-- The elements of masked lines from a line on. -/
def elementsFrom : (lineNumber lineOffset : Nat) → List Text → List Element
  | _, _, [] => []
  | lineNumber, lineOffset, line :: lines =>
    lineElements lineNumber lineOffset line ++
      elementsFrom (lineNumber + 1) (lineOffset + line.length + 1) lines

/-- The offset at which line `n` starts, counting lines from one. -/
def lineStart (source : Text) (n : Nat) : Nat :=
  (((Text.split '\n' source).take (n - 1)).map (·.length + 1)).foldr (· + ·) 0

def templateElements (source : Text) (template : Section) : List Element :=
  elementsFrom template.startLine (lineStart source template.startLine)
    ((maskLines false template.lines).map (·.1))

/-- The text in quotes after `name:` at the head of `cs`. -/
def nameOption? (cs : Text) : Option Text :=
  let isQuote (c : Char) := c == '\'' || c == '"' || c == '\x60'
  match Text.after? "name".toList cs with
  | none => none
  | some rest =>
    match rest.dropWhile Text.isBlank with
    | ':' :: rest =>
      match rest.dropWhile Text.isBlank with
      | quote :: body =>
        if isQuote quote && !(body.takeWhile (!isQuote ·)).isEmpty &&
            !(body.dropWhile (!isQuote ·)).isEmpty then
          some (body.takeWhile (!isQuote ·))
        else none
      | [] => none
    | _ => none

/-- The first name option of a script that is a word of its own. -/
def findNameOption? : (afterWord : Bool) → Text → Option Text
  | _, [] => none
  | afterWord, c :: cs =>
    match if afterWord then none else nameOption? (c :: cs) with
    | some name => some name
    | none => findNameOption? (Text.isWordChar c) cs

/-- The name that a component gives itself in its script, or else that of its file. -/
def componentName? (source path : Text) : Option Text :=
  ((section? source "script").bind fun s => findNameOption? false s.content).or
    (Path.component? path)

def read (source path : Text) : Reading :=
  let reading : Reading :=
    { path
      framework := .vue
      sourceLength := source.length
      component := componentName? source path }
  match section? source "template" with
  | some template => { reading with elements := templateElements source template }
  | none =>
    { reading with
      diagnostics :=
        [{ message := "No template section found in Vue single-file component".toList }] }

end MarkupIds.Sfc
