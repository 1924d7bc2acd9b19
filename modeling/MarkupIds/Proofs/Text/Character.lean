import MarkupIds.Text.Blank
import MarkupIds.Text.Word

/-!
# Classes of characters

The ASCII classes as ranges of code points. No character of a word is blank, in any script.
-/

namespace MarkupIds.Text

theorem toNat_le_toNat_iff {c d : Char} : c ≤ d ↔ c.toNat ≤ d.toNat := by
  rw [Char.le_def, UInt32.le_iff_toNat_le]
  rfl

theorem isAsciiLower_iff {c : Char} :
    isAsciiLower c = true ↔ 97 ≤ c.toNat ∧ c.toNat ≤ 122 := by
  simp only [isAsciiLower, Bool.and_eq_true, decide_eq_true_eq, toNat_le_toNat_iff]
  rfl

theorem isAsciiDigit_iff {c : Char} :
    isAsciiDigit c = true ↔ 48 ≤ c.toNat ∧ c.toNat ≤ 57 := by
  simp only [isAsciiDigit, Bool.and_eq_true, decide_eq_true_eq, toNat_le_toNat_iff]
  rfl

theorem isAsciiLetter_iff {c : Char} :
    isAsciiLetter c = true ↔
      97 ≤ c.toNat ∧ c.toNat ≤ 122 ∨ 65 ≤ c.toNat ∧ c.toNat ≤ 90 := by
  simp only [isAsciiLetter, Bool.or_eq_true, Bool.and_eq_true, decide_eq_true_eq,
    toNat_le_toNat_iff]
  rfl

/-- The blanks beyond the first 128 characters. -/
def wideBlanks : List Nat :=
  [0x85, 0xA0, 0x1680] ++ List.range' 0x2000 11 ++ [0x2028, 0x2029, 0x202F, 0x205F, 0x3000]

theorem mem_wideBlanks {c : Char} (hwide : 128 ≤ c.toNat) (h : isBlank c = true) :
    c.toNat ∈ wideBlanks := by
  simp only [isBlank, Bool.or_eq_true, Bool.and_eq_true, decide_eq_true_eq, beq_iff_eq] at h
  simp only [wideBlanks, List.mem_append, List.mem_cons, List.mem_range'_1, List.not_mem_nil]
  omega

theorem wordRuns_exclude_wideBlanks :
    ∀ n ∈ wideBlanks, (wordRuns.any fun (first, last) => first ≤ n && n ≤ last) = false := by
  decide +kernel

theorem isBlank_of_alphanumeric {c : Char}
    (h : 48 ≤ c.toNat ∧ c.toNat ≤ 57 ∨ 65 ≤ c.toNat ∧ c.toNat ≤ 90 ∨
      97 ≤ c.toNat ∧ c.toNat ≤ 122) : isBlank c = false := by
  simp only [isBlank, Bool.or_eq_false_iff, Bool.and_eq_false_iff, decide_eq_false_iff_not,
    beq_eq_false_iff_ne]
  omega

theorem isBlank_of_isAsciiLetter {c : Char} (h : isAsciiLetter c = true) : isBlank c = false :=
  isBlank_of_alphanumeric (by rw [isAsciiLetter_iff] at h; omega)

theorem isBlank_of_isWordChar {c : Char} (h : isWordChar c = true) : isBlank c = false := by
  unfold isWordChar at h
  split at h
  · simp only [Bool.or_eq_true, beq_iff_eq] at h
    rcases h with (hletter | hdigit) | rfl
    · exact isBlank_of_isAsciiLetter hletter
    · exact isBlank_of_alphanumeric (.inl (isAsciiDigit_iff.mp hdigit))
    · decide
  · rename_i hwide
    cases hblank : isBlank c with
    | false => rfl
    | true =>
        have hmem := mem_wideBlanks (by omega) hblank
        rw [wordRuns_exclude_wideBlanks _ hmem] at h
        exact absurd h Bool.false_ne_true

end MarkupIds.Text
