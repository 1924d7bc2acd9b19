import MarkupIds.Text.Numeral
import MarkupIds.Text.Word
import MarkupIds.Yaml.Cursor

/-!
# Scalars of a document

Plain, quoted and block scalars with their folding rules. Every reader gives the text and the
cursor after it; no text means that the document is malformed.
-/

namespace MarkupIds.Yaml

/-- Joins the breaks between two lines: one break is a space, more of them lose the first. -/
def foldBreaks (first : Char) (others : Text) : Text :=
  if first != '\n' then first :: others
  else if others.isEmpty then [' '] else others

/-! Plain scalars -/

/-- The breaks and spaces in front of the next line, unless a separator comes first. -/
def plainBreaks : (fuel : Nat) → Cursor → Option (Text × Cursor)
  | 0, _ => none
  | fuel + 1, c =>
    if c.peek == some ' ' then plainBreaks fuel c.next
    else match c.lineBreak? with
      | some (b, c) =>
        if c.atDocumentEdge then none
        else (plainBreaks fuel c).map fun (bs, c) => (b :: bs, c)
      | none => some ([], c)

/-- What stands between two pieces of a plain scalar: the text it adds, the cursor after it, and
whether a line ended. No text means that the scalar ends. -/
def plainGap (c : Cursor) : Option Text × Cursor × Bool :=
  let (spaces, c) := c.span (· == ' ')
  match c.lineBreak? with
  | some (b, c) =>
    if c.atDocumentEdge then (none, c, true)
    else match plainBreaks (c.rest.length + 1) c with
      | some (bs, c) => (some (foldBreaks b bs), c, true)
      | none => (none, c.skipWhile fun d => d == ' ' || isBreak d, true)
  | none => (if spaces.isEmpty then none else some spaces, c, false)

/-- The length of a piece of a plain scalar without blanks. -/
def plainRun (inFlow : Bool) : Text → Nat
  | [] => 0
  | c :: cs =>
    let stopsColon := isEdge cs.head? ||
      (inFlow && cs.head?.any fun d => [',', '[', ']', '\x7b', '\x7d'].contains d)
    if isEdge (some c) || (c == ':' && stopsColon) ||
        (inFlow && [',', '?', '[', ']', '\x7b', '\x7d'].contains c) then 0
    else plainRun inFlow cs + 1

/-- A plain scalar whose lines stand at column `indent` or further right. The flag tells whether
a line ended after its last piece. -/
def plain (inFlow : Bool) (indent : Int) : (fuel : Nat) → (gap : Text) → Cursor →
    Text × Cursor × Bool
  | 0, _, c => ([], c, false)
  | fuel + 1, gap, c =>
    match if c.peek == some '#' then 0 else plainRun inFlow c.rest with
    | 0 => ([], c, false)
    | n =>
      let piece := gap ++ c.rest.take n
      match plainGap (c.skip n) with
      | (none, c, ended) => (piece, c, ended)
      | (some gap, c, ended) =>
        if c.peek == some '#' || (!inFlow && c.column < indent) then (piece, c, ended)
        else
          let (more, c, endedLater) := plain inFlow indent fuel gap c
          (piece ++ more, c, if more.isEmpty then ended else endedLater)

/-! Quoted scalars -/

/-- Characters that a letter after a backslash stands for. -/
def escapes : List (Char × Nat) := [
  ('0', 0), ('a', 7), ('b', 8), ('t', 9), ('\t', 9), ('n', 10), ('v', 11), ('f', 12), ('r', 13),
  ('e', 27), (' ', 32), ('"', 34), ('\\', 92), ('/', 47), ('N', 0x85), ('_', 0xA0),
  ('L', 0x2028), ('P', 0x2029)]

def escapeDigits : Char → Option Nat
  | 'x' => some 2
  | 'u' => some 4
  | 'U' => some 8
  | _ => none

/-- The breaks in front of the next line of a quoted scalar. -/
def quotedBreaks : (fuel : Nat) → Cursor → Option (Text × Cursor)
  | 0, _ => none
  | fuel + 1, c =>
    if c.atDocumentEdge then none
    else
      let c := c.skipWhile fun d => d == ' ' || d == '\t'
      match c.lineBreak? with
      | some (b, c) => (quotedBreaks fuel c).map fun (bs, c) => (b :: bs, c)
      | none => some ([], c)

/-- Blanks inside a quoted scalar. -/
def quotedGap (c : Cursor) : Option (Text × Cursor) :=
  let (spaces, c) := c.span fun d => d == ' ' || d == '\t'
  match c.lineBreak? with
  | some (b, c) =>
    (quotedBreaks (c.rest.length + 1) c).map fun (bs, c) => (foldBreaks b bs, c)
  | none => if c.rest.isEmpty then none else some (spaces, c)

/-- What stands for a backslash and what follows it. -/
def escape (c : Cursor) : Option (Text × Cursor) :=
  match c.peek with
  | none => none
  | some d =>
    match escapes.find? (·.1 == d) with
    | some (_, code) => some ([Char.ofNat code], c.next)
    | none =>
      match escapeDigits d with
      | some n =>
        let digits := c.next.rest.take n
        if digits.length == n && digits.all Text.isHexDigit then
          let code := Text.foldDigits 16 (digits.filterMap (Text.baseDigit? 16))
          if code.isValidChar then some ([Char.ofNat code], c.skip (n + 1)) else none
        else none
      | none =>
        match c.lineBreak? with
        | some (_, c) => quotedBreaks (c.rest.length + 1) c
        | none => none

/-- A scalar up to its closing quote. -/
def quoted (double : Bool) : (fuel : Nat) → Cursor → Option (Text × Cursor)
  | 0, _ => none
  | fuel + 1, c =>
    let quote := if double then '"' else '\''
    let following (found : Option (Text × Cursor)) : Option (Text × Cursor) :=
      match found with
      | some (t, c) => (quoted double fuel c).map fun (more, c) => (t ++ more, c)
      | none => none
    match c.peek with
    | none => none
    | some d =>
      if d == quote then
        if !double && c.peekAt 1 == some '\'' then following (some (['\''], c.skip 2))
        else some ([], c.next)
      else if double && d == '\\' then following (escape c.next)
      else if isEdge (some d) then following (quotedGap c)
      else following (some ([d], c.next))

/-! Block scalars -/

inductive Chomping where
  | clip
  | strip
  | keep
deriving DecidableEq

/-- The signs after the mark of a block scalar: what becomes of its last breaks, and how far it
is indented. -/
def blockHeader (c : Cursor) : Option (Chomping × Option Nat × Cursor) :=
  let chomp (c : Cursor) : Chomping × Cursor :=
    match c.peek with
    | some '+' => (.keep, c.next)
    | some '-' => (.strip, c.next)
    | _ => (.clip, c)
  let digit (c : Cursor) : Option (Option Nat × Cursor) :=
    match c.peek with
    | some d =>
      if d == '0' then none
      else if Text.isAsciiDigit d then some (some (d.toNat - '0'.toNat), c.next)
      else some (none, c)
    | none => some (none, c)
  let ignored (c : Cursor) : Option Cursor :=
    if !(c.peek.all fun d => d == ' ' || isBreak d) then none
    else
      let c := c.skipWhile (· == ' ')
      let c := if c.peek == some '#' then c.skipWhile (!isBreak ·) else c
      match c.lineBreak? with
      | some (_, c) => some c
      | none => if c.rest.isEmpty then some c else none
  match chomp c with
  | (.clip, c) => do
    let (indent, c) ← digit c
    let (chomping, c) := if indent.isSome then chomp c else (.clip, c)
    return (chomping, indent, ← ignored c)
  | (chomping, c) => do
    let (indent, c) ← digit c
    return (chomping, indent, ← ignored c)

/-- Breaks and the widest indentation in front of the first line with text. -/
def firstIndent : (fuel : Nat) → (widest : Nat) → Cursor → Text × Nat × Cursor
  | 0, widest, c => ([], widest, c)
  | fuel + 1, widest, c =>
    if c.peek == some ' ' then firstIndent fuel (max widest c.next.column) c.next
    else match c.lineBreak? with
      | some (b, c) =>
        let (bs, widest, c) := firstIndent fuel widest c
        (b :: bs, widest, c)
      | none => ([], widest, c)

/-- Goes past spaces up to a column. -/
def toColumn (indent : Nat) (c : Cursor) : Cursor :=
  c.skip ((c.rest.takeWhile (· == ' ')).length.min (indent - c.column))

/-- The breaks in front of the next line with text. -/
def blockBreaks (indent : Nat) : (fuel : Nat) → Cursor → Text × Cursor
  | 0, c => ([], c)
  | fuel + 1, c =>
    let c := toColumn indent c
    match c.lineBreak? with
    | some (b, c) =>
      let (bs, c) := blockBreaks indent fuel c
      (b :: bs, c)
    | none => ([], c)

/-- The lines of a block scalar, in front of which `breaks` were passed. Gives the text, the last
break of the text and the breaks after it. -/
def blockLines (folded : Bool) (indent : Nat) : (fuel : Nat) → (breaks : Text) → Cursor →
    Text × Text × Text × Cursor
  | 0, breaks, c => ([], [], breaks, c)
  | fuel + 1, breaks, c =>
    if c.column == indent && !c.rest.isEmpty then
      let isSpace (d : Option Char) := d == some ' ' || d == some '\t'
      let leading := !isSpace c.peek
      let (line, c) := c.span (!isBreak ·)
      let (ending, c) : Text × Cursor := match c.lineBreak? with
        | some (b, c) => ([b], c)
        | none => ([], c)
      let (after, c) := blockBreaks indent (c.rest.length + 1) c
      if c.column == indent && !c.rest.isEmpty then
        let glue : Text :=
          if folded && ending == ['\n'] && leading && !isSpace c.peek then
            if after.isEmpty then [' '] else []
          else ending
        let (more, last, rest, c) := blockLines folded indent fuel after c
        (breaks ++ line ++ glue ++ more, last, rest, c)
      else (breaks ++ line, ending, after, c)
    else ([], [], breaks, c)

/-- A block scalar after its mark, inside a block at column `parent`. -/
def block (folded : Bool) (parent : Int) (c : Cursor) : Option (Text × Cursor) := do
  let (chomping, increment, c) ← blockHeader c
  let least := (max (parent + 1) 1).toNat
  let fuel := c.rest.length + 1
  let (breaks, indent, c) := match increment with
    | none =>
      let (breaks, widest, c) := firstIndent fuel 0 c
      (breaks, max least widest, c)
    | some n =>
      let indent := least + n - 1
      let (breaks, c) := blockBreaks indent fuel c
      (breaks, indent, c)
  let (text, last, after, c) := blockLines folded indent fuel breaks c
  match chomping with
  | .strip => return (text, c)
  | .clip => return (text ++ last, c)
  | .keep => return (text ++ last ++ after, c)

end MarkupIds.Yaml
