import MarkupIds.Text.Basic

/-!
# Comments in templates

Comments are blanked out line by line, with one flag carried from line to line. Columns stay.
-/

namespace MarkupIds.Sfc

/-- Blanks out comments. The flag says whether the text starts, and then ends, inside one. -/
def maskLine : Bool → Text → Text × Bool
  | inside, [] => ([], inside)
  | true, '-' :: '-' :: '>' :: cs =>
    let (masked, inside) := maskLine false cs
    (' ' :: ' ' :: ' ' :: masked, inside)
  | true, _ :: cs =>
    let (masked, inside) := maskLine true cs
    (' ' :: masked, inside)
  | false, c :: cs =>
    if c == '<' && Text.startsWith ['!', '-', '-'] cs then
      let (masked, inside) := maskLine true cs
      (' ' :: masked, inside)
    else
      let (masked, inside) := maskLine false cs
      (c :: masked, inside)

/-- Blanks out comments on each line, with the flag after each line. -/
def maskLines : Bool → List Text → List (Text × Bool)
  | _, [] => []
  | inside, line :: lines =>
    let (masked, after) := maskLine inside line
    (masked, after) :: maskLines after lines

end MarkupIds.Sfc
