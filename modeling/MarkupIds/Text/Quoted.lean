import MarkupIds.Text.Numeral
import MarkupIds.Text.PrintableTable

/-!
# Quoted texts

Two ways to show a text between quotes: for messages, with the quote that needs no escape where
there is one, and for component sources, with everything outside ASCII escaped.
-/

namespace MarkupIds.Text

def isPrintable (c : Char) : Bool :=
  if c.toNat < 128 then 32 ≤ c.toNat && c.toNat < 127
  else printableRuns.any fun (first, last) => first ≤ c.toNat && c.toNat ≤ last

/-- A number in hexadecimal with at least `width` digits. -/
def hex (width n : Nat) : Text :=
  let ds := ofNat 16 n
  List.replicate (width - ds.length) '0' ++ ds

private def quotedChar (quote c : Char) : Text :=
  if c == quote || c == '\\' then ['\\', c]
  else if c == '\n' then ['\\', 'n']
  else if c == '\r' then ['\\', 'r']
  else if c == '\t' then ['\\', 't']
  else if isPrintable c then [c]
  else if c.toNat < 0x100 then '\\' :: 'x' :: hex 2 c.toNat
  else if c.toNat < 0x10000 then '\\' :: 'u' :: hex 4 c.toNat
  else '\\' :: 'U' :: hex 8 c.toNat

/-- A text between single quotes, or between double quotes when it holds single quotes only. -/
def quoted (t : Text) : Text :=
  let quote := if t.contains '\'' && !t.contains '"' then '"' else '\''
  quote :: t.flatMap (quotedChar quote) ++ [quote]

private def unitEscape (n : Nat) : Text :=
  '\\' :: 'u' :: hex 4 n

private def escapedChar (c : Char) : Text :=
  if c == '"' || c == '\\' then ['\\', c]
  else if c == '\n' then ['\\', 'n']
  else if c == '\r' then ['\\', 'r']
  else if c == '\t' then ['\\', 't']
  else if c.toNat == 8 then ['\\', 'b']
  else if c.toNat == 12 then ['\\', 'f']
  else if 32 ≤ c.toNat && c.toNat < 127 then [c]
  else if c.toNat < 0x10000 then unitEscape c.toNat
  else
    let n := c.toNat - 0x10000
    unitEscape (0xD800 + n / 0x400) ++ unitEscape (0xDC00 + n % 0x400)

/-- A text between double quotes in ASCII only; characters beyond 16 bits become two escapes. -/
def escaped (t : Text) : Text :=
  '"' :: t.flatMap escapedChar ++ ['"']

end MarkupIds.Text
