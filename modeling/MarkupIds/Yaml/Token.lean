import MarkupIds.Yaml.Scalar

/-!
# Tokens of a document

Indentation opens and closes blocks. A mapping's key is only known to be one when its colon is
met on the same line, so the mark of a key is put in front of tokens that are already there.
-/

namespace MarkupIds.Yaml

inductive Token where
  | version (major minor : Nat)
  | handle (name uri : Text)
  | directive
  | documentStart
  | documentEnd
  | blockSequence
  | blockMapping
  | blockEnd
  | flowSequence
  | flowSequenceEnd
  | flowMapping
  | flowMappingEnd
  | entry
  | flowEntry
  | key
  | value
  | alias (name : Text)
  | anchor (name : Text)
  | tag (handle : Option Text) (suffix : Text)
  | scalar (text : Text) (plain : Bool)
deriving DecidableEq, Repr

/-- A token that may turn out to be a key: its place among the tokens and in the document. -/
structure Candidate where
  level : Nat
  place : Nat
  required : Bool
  index : Nat
  line : Nat
  column : Nat

/-- The state of a scan. -/
structure Scan where
  cursor : Cursor
  tokens : List Token := []
  /-- How many flow collections are open. -/
  level : Nat := 0
  /-- The column of the innermost block, and of those around it. -/
  indent : Int := -1
  indents : List Int := []
  keyAllowed : Bool := true
  candidates : List Candidate := []

namespace Scan

def emit (s : Scan) (t : Token) : Scan :=
  { s with tokens := s.tokens ++ [t] }

/-- Closes the blocks that are indented further than a column. -/
def unwind (column : Int) : (fuel : Nat) → Scan → Scan
  | 0, s => s
  | fuel + 1, s =>
    if s.level == 0 && column < s.indent then
      unwind column fuel
        { s with indent := s.indents.headD (-1), indents := s.indents.tail
                 tokens := s.tokens ++ [.blockEnd] }
    else s

def unwindTo (column : Int) (s : Scan) : Scan :=
  unwind column (s.indents.length + 1) s

/-- Opens a block at a column if that is further right than the innermost one. -/
def deepen (column : Nat) (s : Scan) : Option Scan :=
  if s.indent < column then
    some { s with indent := column, indents := s.indent :: s.indents }
  else none

/-- Drops candidates that can no longer be keys; a required one must have been. -/
def dropStale (s : Scan) : Option Scan :=
  let stale (k : Candidate) := k.line != s.cursor.line || 1024 < s.cursor.index - k.index
  if s.candidates.any fun k => stale k && k.required then none
  else some { s with candidates := s.candidates.filter (!stale ·) }

/-- Drops the candidate of the present level. -/
def dropCandidate (s : Scan) : Option Scan :=
  if s.candidates.any fun k => k.level == s.level && k.required then none
  else some { s with candidates := s.candidates.filter (·.level != s.level) }

/-- The next token may be a key. -/
def saveCandidate (s : Scan) : Option Scan :=
  if s.keyAllowed then do
    let required := s.level == 0 && s.indent == s.cursor.column
    let s ← s.dropCandidate
    return { s with
      candidates := ⟨s.level, s.tokens.length, required, s.cursor.index, s.cursor.line,
        s.cursor.column⟩ :: s.candidates }
  else some s

/-- Goes to the next token. A new line allows keys again. -/
def skipBlanks : (fuel : Nat) → Scan → Scan
  | 0, s => s
  | fuel + 1, s =>
    let c := s.cursor.skipWhile (· == ' ')
    let c := if c.peek == some '#' then c.skipWhile (!isBreak ·) else c
    match c.lineBreak? with
    | some (_, c) =>
      skipBlanks fuel { s with cursor := c, keyAllowed := s.keyAllowed || s.level == 0 }
    | none => { s with cursor := c }

def isNameChar (c : Char) : Bool :=
  Text.isAsciiLetter c || Text.isAsciiDigit c || c == '-' || c == '_'

/-! Tags -/

def isUriChar (c : Char) : Bool :=
  isNameChar c || "-;/?:@&=+$,_.!~*'()[]%".toList.contains c

/-- The bytes of the escapes at the start of a text. -/
def escapedBytes : Text → List UInt8
  | '%' :: h :: l :: t =>
    match Text.baseDigit? 16 h, Text.baseDigit? 16 l with
    | some a, some b => UInt8.ofNat (16 * a + b) :: escapedBytes t
    | _, _ => []
  | _ => []

/-- Replaces each run of escapes by the characters that its bytes encode. -/
def unescape : (fuel : Nat) → Text → Option Text
  | 0, _ => none
  | _, [] => some []
  | fuel + 1, '%' :: t => do
    let bytes := escapedBytes ('%' :: t)
    let decoded ← String.fromUTF8? ⟨bytes.toArray⟩
    if bytes.isEmpty then none
    return decoded.toList ++ (← unescape fuel (('%' :: t).drop (3 * bytes.length)))
  | fuel + 1, c :: t => (unescape fuel t).map (c :: ·)

/-- A piece of a tag. -/
def uri? (c : Cursor) : Option (Text × Cursor) :=
  match c.span isUriChar with
  | ([], _) => none
  | (t, c) => (unescape (t.length + 1) t).map (·, c)

/-- A handle: one mark in front of a space, or a name between two. -/
def handle? (c : Cursor) : Option (Text × Cursor) :=
  if c.peek == some '!' then
    let (name, after) := c.next.span isNameChar
    if after.peek == some '!' then some ('!' :: name ++ ['!'], after.next)
    else if name.isEmpty && after.peek == some ' ' then some (['!'], after) else none
  else none

def endsHere (c : Cursor) : Bool :=
  c.peek.all fun d => d == ' ' || isBreak d

def tag? (c : Cursor) : Option (Token × Cursor) := do
  let (token, c) ←
    if c.peekAt 1 == some '<' then do
      let (suffix, c) ← uri? (c.skip 2)
      if c.peek == some '>' then some (Token.tag none suffix, c.next) else none
    else if isEdge (c.peekAt 1) then some (Token.tag none ['!'], c.next)
    else
      let word := c.next.rest.takeWhile fun d => !(d == ' ' || isBreak d)
      if word.contains '!' then do
        let (handle, c) ← handle? c
        let (suffix, c) ← uri? c
        some (Token.tag (some handle) suffix, c)
      else do
        let (suffix, c) ← uri? c.next
        some (Token.tag (some ['!']) suffix, c)
  if endsHere c then some (token, c) else none

/-- The name of an anchor or alias after its mark. -/
def anchorName? (c : Cursor) : Option (Text × Cursor) :=
  match c.next.span isNameChar with
  | ([], _) => none
  | (name, c) =>
    if isEdge c.peek || c.peek.any (fun d => "?:,]\x7d%@\x60".toList.contains d) then
      some (name, c)
    else none

/-! Directives -/

/-- A number and what follows it. -/
def number? (c : Cursor) : Option (Nat × Cursor) :=
  match c.span Text.isAsciiDigit with
  | ([], _) => none
  | (ds, c) => some (Text.foldDigits 10 (ds.filterMap (Text.baseDigit? 10)), c)

def directive? (c : Cursor) : Option (Token × Cursor) := do
  let (name, c) := c.next.span isNameChar
  if name.isEmpty || !endsHere c then none
  let (token, c) ←
    if name == "YAML".toList then do
      let (major, c) ← number? (c.skipWhile (· == ' '))
      if c.peek != some '.' then none
      let (minor, c) ← number? c.next
      if !endsHere c then none
      some (Token.version major minor, c)
    else if name == "TAG".toList then do
      let (handle, c) ← handle? (c.skipWhile (· == ' '))
      if c.peek != some ' ' then none
      let (uri, c) ← uri? (c.skipWhile (· == ' '))
      if !endsHere c then none
      some (Token.handle handle uri, c)
    else some (Token.directive, c.skipWhile (!isBreak ·))
  let c := c.skipWhile (· == ' ')
  let c := if c.peek == some '#' then c.skipWhile (!isBreak ·) else c
  match c.lineBreak? with
  | some (_, c) => some (token, c)
  | none => if c.rest.isEmpty then some (token, c) else none

/-! One token -/

/-- A token of `n` characters that ends or separates what came before. -/
def closing (s : Scan) (n : Nat) (t : Token) (keyAllowed : Bool) : Option Scan := do
  let s ← s.dropCandidate
  return { s with cursor := s.cursor.skip n, keyAllowed }.emit t

/-- A token that may be a key, read by `read?`. -/
def possibleKey (s : Scan) (read? : Cursor → Option (Token × Cursor)) : Option Scan := do
  let s ← s.saveCandidate
  let (token, c) ← read? s.cursor
  return { s with cursor := c, keyAllowed := false }.emit token

/-- Opens a block if the present column is deeper, with its first token `start`. -/
def startBlock (s : Scan) (start : Token) : Scan :=
  match s.deepen s.cursor.column with
  | some s => s.emit start
  | none => s

def entryToken (s : Scan) : Option Scan := do
  if s.level == 0 && !s.keyAllowed then none
  let s := if s.level == 0 then s.startBlock .blockSequence else s
  s.closing 1 .entry true

def keyToken (s : Scan) : Option Scan := do
  if s.level == 0 && !s.keyAllowed then none
  let s := if s.level == 0 then s.startBlock .blockMapping else s
  s.closing 1 .key (s.level == 0)

/-- The colon of a mapping. A candidate of its level becomes a key. -/
def valueToken (s : Scan) : Option Scan :=
  match s.candidates.find? (·.level == s.level) with
  | some k =>
    let s := { s with candidates := s.candidates.filter (·.level != s.level) }
    let deeper := if s.level == 0 then s.deepen k.column else none
    let marks : List Token := if deeper.isSome then [.blockMapping, .key] else [.key]
    let s := deeper.getD s
    some ({ s with
      tokens := s.tokens.take k.place ++ marks ++ s.tokens.drop k.place
      cursor := s.cursor.next
      keyAllowed := false }.emit .value)
  | none => do
    if s.level == 0 && !s.keyAllowed then none
    let s := if s.level == 0 then s.startBlock .blockMapping else s
    s.closing 1 .value (s.level == 0)

def openFlow (s : Scan) (t : Token) : Option Scan := do
  let s ← s.saveCandidate
  return { s with cursor := s.cursor.next, level := s.level + 1, keyAllowed := true }.emit t

def closeFlow (s : Scan) (t : Token) : Option Scan := do
  let s ← s.closing 1 t false
  return { s with level := s.level - 1 }

def blockScalar (s : Scan) (folded : Bool) : Option Scan := do
  let s ← s.dropCandidate
  let (text, c) ← block folded s.indent s.cursor.next
  return { s with cursor := c, keyAllowed := true }.emit (.scalar text false)

def quotedScalar (s : Scan) (double : Bool) : Option Scan :=
  s.possibleKey fun c =>
    (quoted double (c.rest.length + 1) c.next).map fun (text, c) => (.scalar text false, c)

def startsPlain (s : Scan) (c : Char) : Bool :=
  let marks := "-?:,[]\x7b\x7d#&*!|>'\"%@\x60".toList
  (!isEdge (some c) && !marks.contains c) ||
    (!isEdge (s.cursor.peekAt 1) && (c == '-' || (s.level == 0 && (c == '?' || c == ':'))))

def plainScalar (s : Scan) : Option Scan := do
  let s ← s.saveCandidate
  let (text, c, ended) :=
    plain (s.level != 0) (s.indent + 1) (s.cursor.rest.length + 1) [] s.cursor
  return { s with cursor := c, keyAllowed := ended }.emit (.scalar text true)

/-- Reads the token at the cursor. -/
def token (s : Scan) (c : Char) : Option Scan :=
  let edgeNext := isEdge (s.cursor.peekAt 1)
  let inFlow := s.level != 0
  if c == '%' && s.cursor.column == 0 then do
    let s ← (s.unwindTo (-1)).dropCandidate
    let (t, cursor) ← directive? s.cursor
    return { s with cursor, keyAllowed := false }.emit t
  else if s.cursor.column == 0 && s.cursor.atSeparator '-' then
    (s.unwindTo (-1)).closing 3 .documentStart false
  else if s.cursor.column == 0 && s.cursor.atSeparator '.' then
    (s.unwindTo (-1)).closing 3 .documentEnd false
  else if c == '[' then s.openFlow .flowSequence
  else if c == '\x7b' then s.openFlow .flowMapping
  else if c == ']' then s.closeFlow .flowSequenceEnd
  else if c == '\x7d' then s.closeFlow .flowMappingEnd
  else if c == ',' then s.closing 1 .flowEntry true
  else if c == '-' && edgeNext then s.entryToken
  else if c == '?' && (inFlow || edgeNext) then s.keyToken
  else if c == ':' && (inFlow || edgeNext) then s.valueToken
  else if c == '*' then s.possibleKey fun c =>
    (anchorName? c).map fun (name, c) => (.alias name, c)
  else if c == '&' then s.possibleKey fun c =>
    (anchorName? c).map fun (name, c) => (.anchor name, c)
  else if c == '!' then s.possibleKey tag?
  else if c == '|' && !inFlow then s.blockScalar false
  else if c == '>' && !inFlow then s.blockScalar true
  else if c == '\'' then s.quotedScalar false
  else if c == '"' then s.quotedScalar true
  else if s.startsPlain c then s.plainScalar
  else none

/-- Reads all tokens. -/
def all : (fuel : Nat) → Scan → Option (List Token)
  | 0, _ => none
  | fuel + 1, s => do
    let s ← (skipBlanks (s.cursor.rest.length + 1) s).dropStale
    let s := s.unwindTo s.cursor.column
    match s.cursor.peek with
    | none => return (← (s.unwindTo (-1)).dropCandidate).tokens
    | some c => all fuel (← s.token c)

end Scan

/-- Characters that may stand in a document. -/
def isAllowed (c : Char) : Bool :=
  let n := c.toNat
  n == 9 || n == 10 || n == 13 || (0x20 ≤ n && n ≤ 0x7E) || n == 0x85 ||
    (0xA0 ≤ n && n ≤ 0xD7FF) || (0xE000 ≤ n && n ≤ 0xFFFD) || 0x10000 ≤ n

/-- The tokens of a document; none if it is malformed. -/
def tokens? (t : Text) : Option (List Token) :=
  if t.all isAllowed then
    let body := match t with
      | c :: cs => if c.toNat == 0xFEFF then cs else t
      | [] => []
    Scan.all (t.length + 2) { cursor := { rest := body } }
  else none

end MarkupIds.Yaml
