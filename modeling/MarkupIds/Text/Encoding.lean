import MarkupIds.Text.Basic

/-!
# Texts as bytes

A text is written in UTF-8. The first bytes of a text may end inside a character.
-/

namespace MarkupIds.Text

/-- The bytes of a text. -/
def encode (t : Text) : List UInt8 :=
  t.flatMap String.utf8EncodeChar

/-- The characters of the first bytes of a text, behind `skip` bytes that are read already. A
character that is cut off by the end is read as one replacement character. -/
def decodeFrom : (skip : Nat) → List UInt8 → Text
  | _, [] => []
  | skip + 1, _ :: bytes => decodeFrom skip bytes
  | 0, b :: bytes =>
    match ((b :: bytes).take 4).toByteArray.utf8DecodeChar? 0 with
    | some c => c :: decodeFrom (c.utf8Size - 1) bytes
    | none => ['\uFFFD']

def decode (bytes : List UInt8) : Text :=
  decodeFrom 0 bytes

end MarkupIds.Text
