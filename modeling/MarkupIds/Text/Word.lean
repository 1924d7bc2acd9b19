import MarkupIds.Text.Basic
import MarkupIds.Text.WordTable

/-!
# Word characters and decimal digits
-/

namespace MarkupIds.Text

def isAsciiLetter (c : Char) : Bool :=
  ('a' ≤ c && c ≤ 'z') || ('A' ≤ c && c ≤ 'Z')

def isAsciiDigit (c : Char) : Bool :=
  '0' ≤ c && c ≤ '9'

def isAsciiLower (c : Char) : Bool :=
  'a' ≤ c && c ≤ 'z'

def isAsciiUpper (c : Char) : Bool :=
  'A' ≤ c && c ≤ 'Z'

def isHexDigit (c : Char) : Bool :=
  isAsciiDigit c || ('a' ≤ c && c ≤ 'f') || ('A' ≤ c && c ≤ 'F')

/-- A letter or number of any script, or the underscore. -/
def isWordChar (c : Char) : Bool :=
  if c.toNat < 128 then isAsciiLetter c || isAsciiDigit c || c == '_'
  else wordRuns.any fun (first, last) => first ≤ c.toNat && c.toNat ≤ last

/-- The value of a decimal digit of any script. -/
def digitValue? (c : Char) : Option Nat :=
  (digitZeros.find? fun base => base ≤ c.toNat && c.toNat < base + 10).map (c.toNat - ·)

/-- The value of a digit in a base up to 36, letters in either case. -/
def baseDigit? (base : Nat) (c : Char) : Option Nat :=
  let value? :=
    if isAsciiDigit c then some (c.toNat - '0'.toNat)
    else if isAsciiLower c then some (c.toNat - 'a'.toNat + 10)
    else if isAsciiUpper c then some (c.toNat - 'A'.toNat + 10)
    else none
  value?.filter (· < base)

end MarkupIds.Text
