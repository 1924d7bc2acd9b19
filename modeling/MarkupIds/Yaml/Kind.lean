import MarkupIds.Yaml.Node

/-!
# Kinds of scalars

A plain scalar stands for what it looks like: a truth value, a number, a date or nothing. A
quoted one is a text, and a tag decides for itself.
-/

namespace MarkupIds.Yaml

inductive Kind where
  | null
  | bool
  | int
  | float
  | date
  | text
  /-- The key of a mapping whose entries are laid under the others. -/
  | merge
  /-- The key of a mapping's own value; as a key it is a text. -/
  | value
deriving DecidableEq, Repr

/-- A text without its sign. -/
def unsigned : Text → Text
  | '-' :: t => t
  | '+' :: t => t
  | t => t

def isOneOf (words : List String) (t : Text) : Bool :=
  words.any (·.toList == t)

/-- A digit or the mark between groups of digits. -/
def isGrouped (c : Char) : Bool :=
  Text.isAsciiDigit c || c == '_'

/-- A first character of one class, and others of another. -/
def startsWhere (first others : Char → Bool) : Text → Bool
  | [] => false
  | c :: t => first c && t.all others

/-- A place of base sixty. -/
def isSixtieth : Text → Bool
  | [d] => Text.isAsciiDigit d
  | [c, d] => '0' ≤ c && c ≤ '5' && Text.isAsciiDigit d
  | _ => false

def isBool (t : Text) : Bool :=
  isOneOf ["yes", "Yes", "YES", "no", "No", "NO", "true", "True", "TRUE", "false", "False",
    "FALSE", "on", "On", "ON", "off", "Off", "OFF"] t

def isNull (t : Text) : Bool :=
  isOneOf ["", "~", "null", "Null", "NULL"] t

/-- A whole number: binary, hexadecimal, octal after a zero, decimal, or in places of sixty. -/
def isInt (t : Text) : Bool :=
  let nonempty (digit? : Char → Bool) (ds : Text) := startsWhere digit? digit? ds
  match unsigned t with
  | '0' :: 'b' :: ds => nonempty (fun c => c == '0' || c == '1' || c == '_') ds
  | '0' :: 'x' :: ds => nonempty (fun c => Text.isHexDigit c || c == '_') ds
  | '0' :: ds => ds.all fun c => ('0' ≤ c && c ≤ '7') || c == '_'
  | body =>
    match Text.split ':' body with
    | whole :: sixtieths =>
      startsWhere (fun c => '1' ≤ c && c ≤ '9') isGrouped whole && sixtieths.all isSixtieth
    | [] => false

/-- An exponent, which has a sign, or nothing. -/
def isExponent : Text → Bool
  | [] => true
  | e :: s :: ds =>
    (e == 'e' || e == 'E') && (s == '+' || s == '-') &&
      startsWhere Text.isAsciiDigit Text.isAsciiDigit ds
  | _ => false

/-- A number with a point. Only one that starts with the point has no sign. -/
def isFloat (t : Text) : Bool :=
  let body := unsigned t
  isOneOf [".inf", ".Inf", ".INF"] body || isOneOf [".nan", ".NaN", ".NAN"] t ||
    match Text.cut? ['.'] body with
    | none => false
    | some (whole, rest) =>
      let fraction := rest.takeWhile isGrouped
      let exponent := rest.dropWhile isGrouped
      match Text.split ':' whole with
      | [[]] =>
        body == t && startsWhere Text.isAsciiDigit isGrouped fraction && isExponent exponent
      | [ds] => startsWhere Text.isAsciiDigit isGrouped ds && isExponent exponent
      | ds :: sixtieths =>
        startsWhere Text.isAsciiDigit isGrouped ds && sixtieths.all isSixtieth &&
          exponent.isEmpty
      | [] => false

/-- The digits of a date: four for the year, two for the month and two for the day. -/
def dateParts? (t : Text) : Option (Text × Text × Text) :=
  match Text.split '-' t with
  | [y, m, d] =>
    if (y ++ m ++ d).all Text.isAsciiDigit && y.length == 4 && m.length == 2 && d.length == 2 then
      some (y, m, d)
    else none
  | _ => none

namespace Kind

/-- What a plain scalar stands for. -/
def ofPlain (t : Text) : Kind :=
  if isBool t then .bool
  else if isFloat t then .float
  else if isInt t then .int
  else if t == "<<".toList then .merge
  else if isNull t then .null
  else if (dateParts? t).isSome then .date
  else if t == "=".toList then .value
  else .text

/-- What a tag of the standard repertoire stands for. -/
def ofTag? (tag : Text) : Option Kind := do
  let name ← Text.after? "tag:yaml.org,2002:".toList tag
  match String.ofList name with
  | "null" => some .null
  | "bool" => some .bool
  | "int" => some .int
  | "float" => some .float
  | "timestamp" => some .date
  | "str" => some .text
  | "merge" => some .merge
  | "value" => some .value
  | _ => none

end Kind

namespace Node

/-- The kind of a scalar; none if its tag is not known. -/
def scalarKind? (tag : Option Text) (text : Text) (plain : Bool) : Option Kind :=
  match tag with
  | none => some (if plain then .ofPlain text else .text)
  | some ['!'] => some (.ofPlain text)
  | some tag => Kind.ofTag? tag

/-- Whether the tag of a collection is the given one of the standard repertoire, or absent. -/
def hasTag (tag : Option Text) (name : String) : Bool :=
  match tag with
  | none | some ['!'] => true
  | some tag => tag == "tag:yaml.org,2002:".toList ++ name.toList

def isMerge : Node → Bool
  | .scalar tag text plain => scalarKind? tag text plain == some .merge
  | .sequence tag _ | .mapping tag _ => tag.bind Kind.ofTag? == some .merge

end Node

end MarkupIds.Yaml
