import MarkupIds.Script.Lexeme
import MarkupIds.Script.Node
import MarkupIds.Script.Semicolon

/-!
# Grammars as values

A form describes a stretch of script. Choices are ordered: the first alternative that fits is
taken for good. One function runs every form, so what holds of all trees is one induction.
-/

namespace MarkupIds.Script

/-- A description of a stretch of script over named rules `ρ`. -/
inductive Form (ρ : Type) where
  | empty
  /-- A lexeme after blanks. -/
  | token (scan : Scanner)
  /-- A lexeme right here. -/
  | glued (scan : Scanner)
  /-- A condition on the setting and the rest of the script, which takes nothing. -/
  | look (test : Setting → Text → Bool)
  | rule (r : ρ)
  | seq (a b : Form ρ)
  | alt (a b : Form ρ)
  | many (a : Form ρ)
  /-- Takes nothing, and fits where `a` does not. -/
  | absent (a : Form ρ)
  /-- A node of the tree that starts at its first token. -/
  | node (k : Kind) (a : Form ρ)
  /-- A node of the tree that starts right here. -/
  | nodeHere (k : Kind) (a : Form ρ)
  /-- Fits in some dialects only. -/
  | only (p : Dialect → Bool) (a : Form ρ)
  /-- The same form in a changed setting. -/
  | within (change : Setting → Setting) (a : Form ρ)

namespace Form

variable {ρ : Type}

instance : Append (Form ρ) := ⟨seq⟩

instance : OrElse (Form ρ) := ⟨fun a b => alt a (b ())⟩

def opt (a : Form ρ) : Form ρ := alt a empty

/-- Takes nothing, and fits where `a` does. -/
def present (a : Form ρ) : Form ρ := absent (absent a)

/-- A mark such as a bracket, after blanks. -/
def mark (t : String) : Form ρ := token (literal t.toList)

/-- A mark that none of the characters of `stops` follows. -/
def markNotBefore (t stops : String) : Form ρ :=
  token (literalNotBefore t.toList (stops.toList.contains ·))

def word (t : String) : Form ρ := token (wordLexeme t.toList)

def words (ts : List String) : Form ρ :=
  ts.foldr (fun t form => alt (word t) form) (look fun _ _ => false)

/-- One or more. -/
def atLeastOne (a : Form ρ) : Form ρ := a ++ many a

/-- One or more, with `sep` between them. -/
def sepBy (sep a : Form ρ) : Form ρ := a ++ many (sep ++ a)

def commaSep (a : Form ρ) : Form ρ := sepBy (mark ",") a

/-- Entries with commas between them; entries may be missing. -/
def commaGaps (a : Form ρ) : Form ρ := commaSep (opt a)

def typed (a : Form ρ) : Form ρ := only Dialect.hasTypes a

def untyped (a : Form ρ) : Form ρ := only (!·.hasTypes) a

/-! Settings -/

/-- At the end of a statement, after an operand. -/
def ending (a : Form ρ) : Form ρ :=
  within ({ · with mayEnd := true, mayOperate := true, beforeColon := false }) a

/-- At the end of a statement, after a type or a name. -/
def endingPlain (a : Form ρ) : Form ρ :=
  within ({ · with mayEnd := true, mayOperate := false, beforeColon := false }) a

/-- Where no statement can end, after an operand. -/
def enclosed (a : Form ρ) : Form ρ :=
  within ({ · with mayEnd := false, mayOperate := true, beforeColon := false }) a

/-- Where no statement can end, after a type or a name. -/
def enclosedPlain (a : Form ρ) : Form ρ :=
  within ({ · with mayEnd := false, mayOperate := false, beforeColon := false }) a

/-- Where a colon ends the expression. -/
def untilColon (a : Form ρ) : Form ρ :=
  within ({ · with mayEnd := false, mayOperate := true, beforeColon := true }) a

/-- Where no statement can end, whatever comes before. -/
def unending (a : Form ρ) : Form ρ :=
  within ({ · with mayEnd := false }) a

/-- A semicolon, written or not. -/
def semicolon : Form ρ := mark ";" <|> look endsStatement

/-- No semicolon is to be put in here. -/
def goesOn : Form ρ := look fun s cs => !(s.mayEnd && endsStatement s cs)

end Form

/-- A place in a script: the offset and the text from there on. -/
structure Place where
  pos : Nat
  rest : Text

namespace Place

def advance (p : Place) (n : Nat) : Place :=
  ⟨p.pos + (p.rest.take n).length, p.rest.drop n⟩

def skipBlanks (p : Place) : Place :=
  p.advance (blankLength p.rest)

end Place

/-- Fits a form at a place: the nodes it makes and the place after it. -/
def run {ρ : Type} (grammar : ρ → Form ρ) :
    (fuel : Nat) → Setting → Form ρ → Place → Option (List Node × Place)
  | 0, _, _, _ => none
  | fuel + 1, setting, form, p =>
    match form with
    | .empty => some ([], p)
    | .token scan =>
      let q := p.skipBlanks
      match scan q.rest with
      | some n => some ([], q.advance n)
      | none => none
    | .glued scan =>
      match scan p.rest with
      | some n => some ([], p.advance n)
      | none => none
    | .look test => if test setting p.rest then some ([], p) else none
    | .rule r => run grammar fuel setting (grammar r) p
    | .seq a b =>
      match run grammar fuel setting a p with
      | none => none
      | some (ns, q) =>
        match run grammar fuel setting b q with
        | none => none
        | some (ms, r) => some (ns ++ ms, r)
    | .alt a b =>
      match run grammar fuel setting a p with
      | some found => some found
      | none => run grammar fuel setting b p
    | .many a =>
      match run grammar fuel setting a p with
      | none => some ([], p)
      | some (ns, q) =>
        if q.pos ≤ p.pos then some ([], p)
        else match run grammar fuel setting (.many a) q with
          | none => none
          | some (ms, r) => some (ns ++ ms, r)
    | .absent a =>
      match run grammar fuel setting a p with
      | some _ => none
      | none => some ([], p)
    | .node k a =>
      let start := p.skipBlanks
      match run grammar fuel setting a start with
      | none => none
      | some (ns, q) => some ([.mk k start.pos q.pos ns], q)
    | .nodeHere k a =>
      match run grammar fuel setting a p with
      | none => none
      | some (ns, q) => some ([.mk k p.pos q.pos ns], q)
    | .only accepts a =>
      if accepts setting.dialect then run grammar fuel setting a p else none
    | .within change a => run grammar fuel (change setting) a p

end MarkupIds.Script
