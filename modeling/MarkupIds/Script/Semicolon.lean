import MarkupIds.Script.Blank
import MarkupIds.Script.Setting

/-!
# Semicolons that are not written

A statement may end without its semicolon at the end of the text, before a closing brace, or at an
end of line before a token that cannot go on with it.
-/

namespace MarkupIds.Script

/-- The text up to the next token, up to and without its first end of line outside comments;
`none` if a token comes first. -/
def restAtLineEnd : BlankState → Text → Option Text
  | _, [] => some []
  | .code, c :: cs =>
    if c == '\n' || c.toNat == 0x2028 || c.toNat == 0x2029 then some (c :: cs)
    else if isGap c then restAtLineEnd .code cs
    else if c == '/' && cs.head? == some '/' then restAtLineEnd .line cs
    else if c == '/' && cs.head? == some '*' then restAtLineEnd (.opening 0) cs
    else none
  | .line, c :: cs =>
    if c == '\n' || c.toNat == 0x2028 || c.toNat == 0x2029 then some (c :: cs)
    else restAtLineEnd .line cs
  | .opening _, _ :: cs => restAtLineEnd (.block 0) cs
  | .block _, c :: cs =>
    if c == '*' && cs.head? == some '/' then restAtLineEnd .closing cs
    else restAtLineEnd (.block 0) cs
  | .closing, _ :: cs => restAtLineEnd .code cs

/-- An end of line stands before the next token. -/
def lineEndsBefore (cs : Text) : Bool :=
  match restAtLineEnd .code cs with
  | some (_ :: _) => true
  | _ => false

/-- The operators that are words and continue an expression on the next line. -/
def continuesAsWord (cs : Text) : Bool :=
  ["in", "instanceof"].any fun w =>
    match Text.after? w.toList cs with
    | some rest => !(rest.head?.any Text.isAsciiLetter)
    | none => false

/-- Whether a token on a new line goes on with what stands before. With types, a bracket goes on
only where an operator may come. -/
def continues (s : Setting) : Text → Bool
  | [] => false
  | c :: cs =>
    if ",:;*%><=?^|&/\x60".toList.contains c then true
    else if c == '(' || c == '[' then s.mayOperate || !s.dialect.hasTypes
    else if c == '.' then s.dialect.hasTypes || !(cs.head?.any Text.isAsciiDigit)
    else if c == '+' then cs.head? != some '+'
    else if c == '-' then cs.head? != some '-'
    else if c == '!' then cs.head? == some '='
    else continuesAsWord (c :: cs)

/-- Whether a comment ends the line before the next token, whatever that token is: a line comment,
or a block comment over several lines. It does so without types, where no operator may come. -/
def commentEnds (s : Setting) (cs : Text) : Bool :=
  if s.dialect.hasTypes || s.mayOperate then false
  else
    let blanks := cs.take (blankLength cs)
    let commented :=
      match blanks.dropWhile fun c => isGap c && !isLineBreak c with
      | '/' :: '/' :: _ => true
      | '/' :: '*' :: _ => !lineEndsBefore cs && blanks.any isLineBreak
      | _ => false
    commented && !((dropBlanks cs).head?.any fun c => c == ',' || c == '=')

/-- Whether a statement may end here without a semicolon. -/
def endsStatement (s : Setting) (cs : Text) : Bool :=
  match dropBlanks cs with
  | [] => true
  | '\x7d' :: rest =>
    s.mayOperate || !s.dialect.hasTypes || (rest.dropWhile isGap).head? != some ':'
  | next => (lineEndsBefore cs && !continues s next) || commentEnds s cs

end MarkupIds.Script
