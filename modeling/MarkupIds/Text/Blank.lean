import MarkupIds.Text.Basic

/-!
# Blanks, words and lines

The blank characters are those of Unicode's white space together with the four separators
`U+001C` to `U+001F`.
-/

namespace MarkupIds.Text

def isBlank (c : Char) : Bool :=
  let n := c.toNat
  (9 ≤ n && n ≤ 13) || (28 ≤ n && n ≤ 32) || n == 0x85 || n == 0xA0 || n == 0x1680 ||
    (0x2000 ≤ n && n ≤ 0x200A) || n == 0x2028 || n == 0x2029 || n == 0x202F || n == 0x205F ||
    n == 0x3000

def trim (t : Text) : Text :=
  trimWhile isBlank t

def trimEnd (t : Text) : Text :=
  dropTailWhile isBlank t

/-- The maximal pieces without blanks. -/
def words (t : Text) : List Text :=
  (splitWhere isBlank t).filter (!·.isEmpty)

/-- The words of a text with single spaces between them. -/
def normalizeBlanks (t : Text) : Text :=
  join [' '] (words t)

/-- Characters that end a line. A carriage return followed by a line feed is one ending. -/
def isLineEnd (c : Char) : Bool :=
  let n := c.toNat
  (10 ≤ n && n ≤ 13) || (28 ≤ n && n ≤ 30) || n == 0x85 || n == 0x2028 || n == 0x2029

/-- The lines of a text, each with its own ending. Joined, they are the text again. -/
def linesWithEnds : Text → List Text
  | [] => []
  | '\r' :: '\n' :: cs => ['\r', '\n'] :: linesWithEnds cs
  | c :: cs =>
    if isLineEnd c then [c] :: linesWithEnds cs
    else match cs, linesWithEnds cs with
      | [], _ => [[c]]
      | _ :: _, [] => [[c]]
      | _ :: _, line :: lines => (c :: line) :: lines

end MarkupIds.Text
