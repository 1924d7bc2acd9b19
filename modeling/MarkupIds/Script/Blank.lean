import MarkupIds.Text.Blank
import MarkupIds.Text.Word

/-!
# Blanks in scripts

Blanks and comments may stand between any two tokens.
-/

namespace MarkupIds.Script

/-- A character that separates tokens. -/
def isGap (c : Char) : Bool :=
  let n := c.toNat
  (Text.isBlank c && !(28 ≤ n && n ≤ 31)) || n == 0xFEFF || n == 0x2060 || n == 0x200B

/-- Characters that end a line comment. -/
def isLineBreak (c : Char) : Bool :=
  c == '\n' || c == '\r' || c.toNat == 0x2028 || c.toNat == 0x2029

/-- Where a scan over blanks stands. A block comment remembers where it started, for one that is
never closed is no comment. -/
inductive BlankState where
  | code
  | line
  | opening (start : Nat)
  | block (start : Nat)
  | closing

/-- The number of characters up to the first that is neither blank nor in a comment, where `n`
were counted before. -/
def blanksFrom : BlankState → Nat → Text → Nat
  | .opening start, _, [] | .block start, _, [] => start
  | _, n, [] => n
  | .code, n, c :: cs =>
    if isGap c then blanksFrom .code (n + 1) cs
    else if c == '/' && cs.head? == some '/' then blanksFrom .line (n + 1) cs
    else if c == '/' && cs.head? == some '*' then blanksFrom (.opening n) (n + 1) cs
    else n
  | .line, n, c :: cs => blanksFrom (if isLineBreak c then .code else .line) (n + 1) cs
  | .opening start, n, _ :: cs => blanksFrom (.block start) (n + 1) cs
  | .block start, n, c :: cs =>
    if c == '*' && cs.head? == some '/' then blanksFrom .closing (n + 1) cs
    else blanksFrom (.block start) (n + 1) cs
  | .closing, n, _ :: cs => blanksFrom .code (n + 1) cs

def blankLength (cs : Text) : Nat :=
  blanksFrom .code 0 cs

def dropBlanks (cs : Text) : Text :=
  cs.drop (blankLength cs)

end MarkupIds.Script
