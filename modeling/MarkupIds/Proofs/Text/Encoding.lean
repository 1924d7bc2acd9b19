import MarkupIds.Text.Encoding
import Mathlib.Data.List.Basic

/-!
# Characters and their bytes

Decoding undoes encoding, and the bytes of a text end where a character ends: the first bytes of a
text up to a character are the bytes of the characters in front of it.
-/

namespace MarkupIds.Text

@[simp] theorem encode_nil : encode [] = [] := rfl

@[simp] theorem encode_cons (c : Char) (t : Text) :
    encode (c :: t) = String.utf8EncodeChar c ++ encode t := rfl

theorem encode_append (s t : Text) : encode (s ++ t) = encode s ++ encode t :=
  List.flatMap_append

theorem take_encode (t : Text) (i : ℕ) :
    (encode t).take (encode (t.take i)).length = encode (t.take i) := by
  calc (encode t).take (encode (t.take i)).length
      = (encode (t.take i) ++ encode (t.drop i)).take (encode (t.take i)).length := by
        rw [← encode_append, List.take_append_drop]
    _ = encode (t.take i) := List.take_left

/-! ## Decoding -/

theorem decodeFrom_length_append (done bytes : List UInt8) :
    decodeFrom done.length (done ++ bytes) = decodeFrom 0 bytes := by
  induction done with
  | nil => rfl
  | cons b done ih => simpa [decodeFrom] using ih

/-- The bytes of a character at the head are read as that character. -/
theorem decode_utf8EncodeChar_append (c : Char) (bytes : List UInt8) :
    decode (String.utf8EncodeChar c ++ bytes) = c :: decode bytes := by
  have hlength := String.length_utf8EncodeChar c
  have hread : ((String.utf8EncodeChar c ++ bytes).take 4).toByteArray.utf8DecodeChar? 0 =
      some c := by
    have hfits : (String.utf8EncodeChar c).length ≤ 4 := hlength ▸ c.utf8Size_le_four
    rw [List.take_append, List.take_of_length_le hfits, List.toByteArray_append]
    exact ByteArray.utf8DecodeChar?_utf8EncodeChar_append
  cases hbytes : String.utf8EncodeChar c with
  | nil =>
      rw [hbytes] at hlength
      exact absurd c.utf8Size_pos (by rw [← hlength]; exact Nat.lt_irrefl 0)
  | cons b done =>
      rw [hbytes, List.length_cons] at hlength
      rw [hbytes] at hread
      have hskip : c.utf8Size - 1 = done.length := by omega
      rw [decode, List.cons_append, decodeFrom, ← List.cons_append, hread]
      dsimp only
      rw [hskip, decodeFrom_length_append, decode]

theorem decode_encode (t : Text) : decode (encode t) = t := by
  induction t with
  | nil => rfl
  | cons c t ih => rw [encode_cons, decode_utf8EncodeChar_append, ih]

/-! ## Texts of single bytes -/

theorem length_le_length_encode (t : Text) : t.length ≤ (encode t).length := by
  induction t with
  | nil => exact Nat.le_refl _
  | cons c t ih =>
      have hpos := c.utf8Size_pos
      rw [encode_cons, List.length_append, String.length_utf8EncodeChar, List.length_cons]
      omega

theorem length_encode_take_lt {t : Text} {i j : ℕ} (hlt : i < j) (hj : j ≤ t.length) :
    (encode (t.take i)).length < (encode (t.take j)).length := by
  have hsplit : t.take j = t.take i ++ (t.take j).drop i := by
    have htake : (t.take j).take i = t.take i := by
      rw [List.take_take, Nat.min_eq_left (Nat.le_of_lt hlt)]
    rw [← htake, List.take_append_drop]
  have hpos : 0 < ((t.take j).drop i).length := by
    rw [List.length_drop, List.length_take]
    omega
  rw [hsplit, encode_append, List.length_append]
  exact Nat.lt_add_of_pos_right (Nat.lt_of_lt_of_le hpos (length_le_length_encode _))

/-- A text with as many bytes as characters has as many in front of every offset. -/
theorem length_encode_take {t : Text} (h : (encode t).length = t.length) {i : ℕ}
    (hi : i ≤ t.length) : (encode (t.take i)).length = i := by
  have hwhole : (encode t).length = (encode (t.take i)).length + (encode (t.drop i)).length := by
    rw [← List.length_append, ← encode_append, List.take_append_drop]
  have hfront := length_le_length_encode (t.take i)
  have hback := length_le_length_encode (t.drop i)
  rw [List.length_take, Nat.min_eq_left hi] at hfront
  rw [List.length_drop] at hback
  omega

end MarkupIds.Text
