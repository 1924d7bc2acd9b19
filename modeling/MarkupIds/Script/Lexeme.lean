import MarkupIds.Script.Blank

/-!
# Lexemes of scripts

Each scanner gives the length of its lexeme at the head of a text, if there is one.
-/

namespace MarkupIds.Script

/-- The length of a lexeme at the head of a text. -/
abbrev Scanner := Text → Option Nat

/-- A fixed piece of text. -/
def literal (t : Text) : Scanner := fun cs =>
  if Text.startsWith t cs then some t.length else none

/-- A fixed piece of text that no character satisfying `p` follows. -/
def literalNotBefore (t : Text) (p : Char → Bool) : Scanner := fun cs =>
  match Text.after? t cs with
  | some rest => if rest.head?.any p then none else some t.length
  | none => none

/-! Names -/

/-- A character of an identifier. Everything that is no blank, mark or control character is. -/
def isIdentChar (c : Char) : Bool :=
  let n := c.toNat
  if n < 128 then Text.isAsciiLetter c || Text.isAsciiDigit c || c == '_' || c == '$' || n == 127
  else !(isGap c)

/-- The number of hexadecimal digits at the head. -/
def hexRun (cs : Text) : Nat :=
  (cs.takeWhile Text.isHexDigit).length

/-- The length of a character given by its code, after the backslash and the `u`. -/
def codeEscape (cs : Text) : Option Nat :=
  match cs with
  | '\x7b' :: rest =>
    let n := hexRun rest
    if 0 < n && (rest.drop n).head? == some '\x7d' then some (n + 2) else none
  | _ => if 4 ≤ hexRun cs then some 4 else none

/-- The length of the character code, with its `u`, that may follow a backslash in a name. -/
def nameEscape? : Text → Option Nat
  | 'u' :: rest => (codeEscape rest).map (· + 1)
  | _ => none

/-- The length of the longest run of identifier characters, some given by their code, after
`skip` characters that belong to it in any case. -/
def identRun : (skip : Nat) → Text → Nat
  | _, [] => 0
  | skip + 1, _ :: cs => identRun skip cs + 1
  | 0, c :: cs =>
    if c == '\\' then
      match nameEscape? cs with
      | some n => identRun n cs + 1
      | none => 0
    else if isIdentChar c then identRun 0 cs + 1
    else 0

/-- A name that may be a keyword. -/
def nameLexeme : Scanner := fun cs =>
  match cs with
  | [] => none
  | c :: _ =>
    if Text.isAsciiDigit c then none
    else match identRun 0 cs with
      | 0 => none
      | n => some n

/-- Names that are always keywords in expressions and bindings. -/
def reservedWords : List Text :=
  Text.split ' ' ("break case catch class const continue debugger default delete do else export " ++
    "extends false finally for function if import in instanceof new null return super switch " ++
    "this throw true try typeof var void while with await yield").toList

/-- A name that is none of the given words. -/
def nameBut (words : List Text) : Scanner := fun cs =>
  match nameLexeme cs with
  | some n => if words.contains (cs.take n) then none else some n
  | none => none

/-- A name that is no keyword. -/
def identLexeme : Scanner := nameBut reservedWords

/-- A given word, whole. -/
def wordLexeme (w : Text) : Scanner := fun cs =>
  match nameLexeme cs with
  | some n => if cs.take n == w then some n else none
  | none => none

/-- A name with hyphens, as tags and attributes may have. -/
def hyphenatedLexeme : Scanner := fun cs =>
  let isStart (c : Char) := Text.isAsciiLetter c || c == '_' || c == '$'
  let isTail (c : Char) := isStart c || Text.isAsciiDigit c
  match cs with
  | c :: rest =>
    if isStart c then
      match rest.dropWhile isTail with
      | '-' :: after =>
        let head := (rest.takeWhile isTail).length
        some (head + 2 + (after.takeWhile fun c => isTail c || c == '-').length)
      | _ => none
    else none
  | [] => none

/-- The longer of a hyphenated name and a plain one. -/
def tagNameLexeme : Scanner := fun cs =>
  match hyphenatedLexeme cs, nameLexeme cs with
  | some m, some n => some (max m n)
  | some m, none => some m
  | none, n => n

def privateNameLexeme : Scanner := fun cs =>
  match cs with
  | '#' :: rest => (nameLexeme rest).map (· + 1)
  | _ => none

/-! Numbers -/

/-- Digits with single underscores between them. -/
def digitRun (p : Char → Bool) : Text → Nat
  | [] => 0
  | c :: cs =>
    if p c then digitRun p cs + 1
    else if c == '_' && cs.head?.any p then digitRun p cs + 1
    else 0

def exponentRun (cs : Text) : Nat :=
  match cs with
  | e :: sign :: rest =>
    if e == 'e' || e == 'E' then
      if sign == '+' || sign == '-' then
        if rest.head?.any Text.isAsciiDigit then 2 + digitRun Text.isAsciiDigit rest else 0
      else if Text.isAsciiDigit sign then 1 + digitRun Text.isAsciiDigit (sign :: rest)
      else 0
    else 0
  | _ => 0

/-- Digits of a base after its two-character mark, perhaps with the mark of big numbers. -/
def basedRun (p : Char → Bool) (cs : Text) : Option Nat :=
  if cs.head?.any p then
    let n := digitRun p cs
    some (if (cs.drop n).head? == some 'n' then n + 3 else n + 2)
  else none

/-- A fraction or an exponent may follow the digits: they are a single zero, or at most one zero
stands in front of them. -/
def leadsFraction (digits : Text) : Bool :=
  match digits with
  | '0' :: c :: _ => Text.isAsciiDigit c && c != '0'
  | _ => true

def decimalLength (cs : Text) : Option Nat :=
  match cs with
  | '.' :: rest =>
    if rest.head?.any Text.isAsciiDigit then
      let n := digitRun Text.isAsciiDigit rest
      some (1 + n + exponentRun (rest.drop n))
    else none
  | c :: _ =>
    if Text.isAsciiDigit c then
      let n := digitRun Text.isAsciiDigit cs
      let plain := leadsFraction (cs.take n)
      match cs.drop n with
      | '.' :: rest =>
        let m := if rest.head?.any Text.isAsciiDigit then digitRun Text.isAsciiDigit rest else 0
        some (if plain then n + 1 + m + exponentRun (rest.drop m) else n)
      | 'n' :: _ => some (n + 1)
      | rest => some (if plain then n + exponentRun rest else n)
    else none
  | [] => none

def numberLexeme : Scanner := fun cs =>
  let based? :=
    match cs with
    | '0' :: mark :: rest =>
      if mark == 'x' || mark == 'X' then basedRun Text.isHexDigit rest
      else if mark == 'b' || mark == 'B' then basedRun (fun c => c == '0' || c == '1') rest
      else if mark == 'o' || mark == 'O' then basedRun (fun c => '0' ≤ c && c ≤ '7') rest
      else none
    | _ => none
  based?.or (decimalLength cs)

/-! Strings, templates and patterns -/

/-- The length of what may follow a backslash. -/
def escapeLength (cs : Text) : Option Nat :=
  match cs with
  | [] => none
  | 'x' :: rest => if 2 ≤ hexRun (rest.take 2) then some 3 else none
  | 'u' :: rest => (codeEscape rest).map (· + 1)
  | c :: rest =>
    if '0' ≤ c && c ≤ '7' then
      some (1 + ((rest.take 2).takeWhile fun c => '0' ≤ c && c ≤ '7').length)
    else if c == '\r' && rest.head? == some '\n' then some 2
    else some 1

/-- The length of a string up to and with its closing `quote`, after `skip` characters that
belong to it in any case. An end of line is allowed only if nothing but blanks stands between it
and the quote. -/
def stringRun (quote : Char) : (skip : Nat) → Text → Option Nat
  | _, [] => none
  | skip + 1, _ :: cs => (stringRun quote skip cs).map (· + 1)
  | 0, c :: cs =>
    if c == quote then some 1
    else if c == '\\' then
      match escapeLength cs with
      | some n => (stringRun quote n cs).map (· + 1)
      | none => none
    else if c == '\n' || c == '\r' then
      let n := blankLength (c :: cs)
      if ((c :: cs).drop n).head? == some quote then some (n + 1) else none
    else (stringRun quote 0 cs).map (· + 1)

def stringLexeme : Scanner := fun cs =>
  match cs with
  | c :: rest =>
    if c == '"' || c == '\'' then (stringRun c 0 rest).map (· + 1) else none
  | [] => none

/-- The longest run of characters of a template. -/
def templateRun : Text → Nat
  | [] => 0
  | c :: cs =>
    if c == '\x60' || c == '\\' || (c == '$' && cs.head? == some '\x7b') then 0
    else templateRun cs + 1

def templateLexeme : Scanner := fun cs =>
  match templateRun cs with
  | 0 => none
  | n => some n

def escapeLexeme : Scanner := fun cs =>
  match cs with
  | '\\' :: rest => (escapeLength rest).map (· + 1)
  | _ => none

/-- The length of a pattern up to and with its closing slash; `inClass` is true between
brackets. -/
def patternRun : (inClass escaped : Bool) → Text → Option Nat
  | _, _, [] => none
  | inClass, true, c :: cs =>
    if c == '\n' then none else (patternRun inClass false cs).map (· + 1)
  | inClass, false, c :: cs =>
    if c == '\n' then none
    else if c == '\\' then (patternRun inClass true cs).map (· + 1)
    else if inClass then (patternRun (c != ']') false cs).map (· + 1)
    else if c == '/' then some 1
    else (patternRun (c == '[') false cs).map (· + 1)

def patternLexeme : Scanner := fun cs =>
  match cs with
  | '/' :: rest =>
    match patternRun false false rest with
    | some n =>
      if n == 1 then none
      else some (n + 1 + ((rest.drop n).takeWhile Text.isAsciiLower).length)
    | none => none
  | _ => none

/-! Markup -/

/-- A character reference: a name of up to 30 letters, up to 5 decimal or 6 hexadecimal
digits. -/
def referenceLexeme : Scanner := fun cs =>
  let closed (most marks : Nat) (p : Char → Bool) (body : Text) : Option Nat :=
    let n := (body.takeWhile p).length
    if 0 < n && n ≤ most && (body.drop n).head? == some ';' then some (marks + n + 1) else none
  match cs with
  | '&' :: '#' :: x :: body =>
    if x == 'x' || x == 'X' then closed 6 3 Text.isHexDigit body
    else closed 5 2 Text.isAsciiDigit (x :: body)
  | '&' :: body => closed 30 1 Text.isAsciiLetter body
  | _ => none

/-- Text between tags. -/
def markupTextLexeme : Scanner := fun cs =>
  match (cs.takeWhile fun c =>
      c != '<' && c != '>' && c != '\x7b' && c != '\x7d' && c != '&').length with
  | 0 => none
  | n => some n

/-- How many characters an ampersand takes along in an attribute's string: before a letter or
number sign those of a reference, else the next one. -/
def ampersandLength? (cs : Text) : Option Nat :=
  match cs with
  | [] => none
  | d :: _ =>
    if d == '#' || Text.isAsciiLetter d then (referenceLexeme ('&' :: cs)).map (· - 1)
    else some 1

/-- The length of an attribute's string up to and with its closing `quote`, after `skip`
characters that belong to it in any case. -/
def markupStringRun (quote : Char) : (skip : Nat) → Text → Option Nat
  | _, [] => none
  | skip + 1, _ :: cs => (markupStringRun quote skip cs).map (· + 1)
  | 0, c :: cs =>
    if c == quote then some 1
    else if c == '&' then
      match ampersandLength? cs with
      | some n => (markupStringRun quote n cs).map (· + 1)
      | none => none
    else (markupStringRun quote 0 cs).map (· + 1)

def markupStringLexeme : Scanner := fun cs =>
  match cs with
  | c :: rest =>
    if c == '"' || c == '\'' then (markupStringRun c 0 rest).map (· + 1)
    else none
  | [] => none

/-- A comment of older markup, which runs to the end of its line. -/
def lineRemarkLexeme (start : Text) : Scanner := fun cs =>
  match Text.after? start cs with
  | some rest =>
    some (start.length + (rest.takeWhile fun c =>
      !(c == '\n' || c.toNat == 0x2028 || c.toNat == 0x2029)).length)
  | none => none

/-- The first line of an executable script. -/
def interpreterLexeme : Scanner := fun cs =>
  match cs with
  | '#' :: '!' :: rest => some (2 + (rest.takeWhile (· != '\n')).length)
  | _ => none

end MarkupIds.Script
