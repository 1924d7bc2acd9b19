import MarkupIds.Naming.Identifier
import MarkupIds.Proofs.Text.Character
import MarkupIds.Sfc.Tag
import Mathlib.Data.List.Basic

/-!
# Classes of characters in templates

Tag names, identifiers and attribute names that can be read back are all made of characters that
may stand in an attribute's name: no blanks, quotes, slashes, equals signs or closing brackets.
-/

namespace MarkupIds.Sfc

theorem isNameChar_iff {c : Char} :
    isNameChar c = true ↔ Text.isBlank c = false ∧ c ≠ '"' ∧ c ≠ '\'' ∧ c ≠ '>' ∧ c ≠ '/' ∧
      c ≠ '=' := by
  simp only [isNameChar, Bool.and_eq_true, Bool.not_eq_true', bne_iff_ne, ne_eq, and_assoc]

theorem isNameChar_of_alphanumeric {c : Char}
    (h : 48 ≤ c.toNat ∧ c.toNat ≤ 57 ∨ 65 ≤ c.toNat ∧ c.toNat ≤ 90 ∨
      97 ≤ c.toNat ∧ c.toNat ≤ 122) : isNameChar c = true := by
  refine isNameChar_iff.mpr ⟨Text.isBlank_of_alphanumeric h, ?_, ?_, ?_, ?_, ?_⟩
  all_goals
    rintro rfl
    revert h
    decide

/-- Characters of plain ASCII words may stand in a name. -/
theorem isNameChar_of_ascii {c : Char}
    (h : Text.isAsciiLetter c = true ∨ Text.isAsciiDigit c = true ∨ c = '_' ∨ c = '-') :
    isNameChar c = true := by
  rw [Text.isAsciiLetter_iff, Text.isAsciiDigit_iff] at h
  rcases h with hletter | hdigit | rfl | rfl
  · exact isNameChar_of_alphanumeric (by omega)
  · exact isNameChar_of_alphanumeric (by omega)
  · decide
  · decide

theorem isNameChar_of_isTagChar {c : Char} (h : isTagChar c = true) : isNameChar c = true := by
  simp only [isTagChar, Bool.or_eq_true, beq_iff_eq] at h
  exact isNameChar_of_ascii (by tauto)

theorem isTagChar_of_isAsciiLetter {c : Char} (h : Text.isAsciiLetter c = true) :
    isTagChar c = true := by
  simp [isTagChar, h]

theorem isNameChar_of_isIdChar {c : Char} (h : Naming.isIdChar c = true) :
    isNameChar c = true := by
  simp only [Naming.isIdChar, Bool.or_eq_true, beq_iff_eq, Text.isAsciiLower_iff] at h
  apply isNameChar_of_ascii
  rw [Text.isAsciiLetter_iff]
  tauto

theorem isNameChar_of_isWordChar {c : Char} (h : Text.isWordChar c = true) :
    isNameChar c = true := by
  refine isNameChar_iff.mpr ⟨Text.isBlank_of_isWordChar h, ?_, ?_, ?_, ?_, ?_⟩
  all_goals
    rintro rfl
    exact absurd h (by decide)

theorem isNameChar_of_isNameTail {c : Char} (h : isNameTail c = true) : isNameChar c = true := by
  simp only [isNameTail, Bool.or_eq_true, beq_iff_eq] at h
  rcases h with ((hword | rfl) | rfl) | rfl
  · exact isNameChar_of_isWordChar hword
  all_goals decide

theorem isNameTail_of_isNameStart {c : Char} (h : isNameStart c = true) :
    isNameTail c = true := by
  simp only [isNameStart, Bool.or_eq_true, beq_iff_eq] at h
  have hascii : c.toNat < 128 := by
    rcases h with hletter | rfl
    · rw [Text.isAsciiLetter_iff] at hletter
      omega
    · decide
  simp only [isNameTail, Text.isWordChar, if_pos hascii, Bool.or_eq_true, beq_iff_eq]
  tauto

theorem isMark_iff {c : Char} : isMark c = true ↔ c = ':' ∨ c = '@' ∨ c = '#' := by
  simp only [isMark, Bool.or_eq_true, beq_iff_eq, or_assoc]

end MarkupIds.Sfc
