import MarkupIds.Proofs.Text.Basic
import Mathlib.Data.List.Chain
import Mathlib.Data.List.TakeWhile

/-!
# Squeezed and trimmed texts

Squeezing leaves no separator twice in a row and trimming none at the ends. Texts that have none
there stay as they are.
-/

namespace MarkupIds.Text

/-! ## What is left -/

theorem head?_squeeze (sep : Char) (t : Text) : (squeeze sep t).head? = t.head? := by
  cases t with
  | nil => rfl
  | cons c t =>
      rw [squeeze]
      cases squeeze sep t with
      | nil => rfl
      | cons d ds =>
          dsimp only
          split
          · rename_i hboth
            simp only [Bool.and_eq_true, beq_iff_eq] at hboth
            simp [hboth.1, hboth.2]
          · rfl

/-- Neighbours in a squeezed text were neighbours before. -/
theorem isChain_squeeze {R : Char → Char → Prop} {t : Text} (h : t.IsChain R) (sep : Char) :
    (squeeze sep t).IsChain R := by
  induction t with
  | nil => exact .nil
  | cons c t ih =>
      obtain ⟨hnext, htail⟩ := List.isChain_cons.mp h
      have hhead := head?_squeeze sep t
      have hrest := ih htail
      rw [squeeze]
      cases hsqueezed : squeeze sep t with
      | nil => exact .singleton c
      | cons d ds =>
          rw [hsqueezed] at hhead hrest
          dsimp only
          split
          · exact hrest
          · exact List.isChain_cons.mpr ⟨fun y hy => hnext y (hhead ▸ hy), hrest⟩

theorem isChain_squeeze_self (sep : Char) (t : Text) :
    (squeeze sep t).IsChain fun a b => a = sep → a ≠ b := by
  induction t with
  | nil => exact .nil
  | cons c t ih =>
      rw [squeeze]
      cases hsqueezed : squeeze sep t with
      | nil => exact .singleton c
      | cons d ds =>
          rw [hsqueezed] at ih
          dsimp only
          split
          · exact ih
          · rename_i hboth
            refine List.isChain_cons_cons.mpr ⟨?_, ih⟩
            rintro rfl rfl
            exact hboth (by simp)

theorem mem_head?_of_isPrefix {s t : Text} (h : s <+: t) {c : Char} (hc : c ∈ s.head?) :
    c ∈ t.head? := by
  obtain ⟨rest, rfl⟩ := h
  rw [Option.mem_def] at hc ⊢
  rw [List.head?_append, hc]
  rfl

theorem head?_trimWhile {p : Char → Bool} (t : Text) :
    ∀ c ∈ (trimWhile p t).head?, p c = false :=
  fun c hc => head?_dropWhile t c (mem_head?_of_isPrefix (dropTailWhile_isPrefix p _) hc)

theorem getLast?_dropTailWhile {p : Char → Bool} (t : Text) :
    ∀ c ∈ (dropTailWhile p t).getLast?, p c = false := by
  intro c hc
  rw [dropTailWhile, List.getLast?_reverse] at hc
  exact head?_dropWhile t.reverse c hc

theorem dropTailWhile_ne_nil {p : Char → Bool} {c : Char} (hc : p c = false) (t : Text) :
    dropTailWhile p (c :: t) ≠ [] := by
  intro hnil
  rw [dropTailWhile, List.reverse_eq_nil_iff, List.dropWhile_eq_nil_iff] at hnil
  exact absurd (hnil c (by simp)) (by simp [hc])

/-! ## Texts that stay as they are -/

theorem squeeze_eq_self {sep : Char} {t : Text} (h : t.IsChain fun a b => a = sep → a ≠ b) :
    squeeze sep t = t := by
  induction t with
  | nil => rfl
  | cons c t ih =>
      obtain ⟨hnext, htail⟩ := List.isChain_cons.mp h
      rw [squeeze, ih htail]
      cases t with
      | nil => rfl
      | cons d t =>
          have hapart : (c == sep && d == sep) = false := by
            by_contra hboth
            simp only [Bool.not_eq_false, Bool.and_eq_true, beq_iff_eq] at hboth
            exact hnext d rfl hboth.1 (hboth.1.trans hboth.2.symm)
          simp [hapart]

theorem trimWhile_eq_self {p : Char → Bool} {t : Text} (hfirst : ∀ c ∈ t.head?, p c = false)
    (hlast : ∀ c ∈ t.getLast?, p c = false) : trimWhile p t = t := by
  have hfront : ([] ++ t).dropWhile p = t := dropWhile_append_stop (by simp) hfirst
  rw [List.nil_append] at hfront
  rw [trimWhile, hfront, dropTailWhile_eq_self hlast]

theorem head?_dropTailWhile {p : Char → Bool} {t : Text} (h : ∀ c ∈ t.head?, p c = false) :
    (dropTailWhile p t).head? = t.head? := by
  cases t with
  | nil => rfl
  | cons c t => rw [dropTailWhile_cons (h c rfl), List.head?_cons, List.head?_cons]

theorem head?_dropWhile_squeeze (p : Char → Bool) (sep : Char) (t : Text) :
    ((squeeze sep t).dropWhile p).head? = (t.dropWhile p).head? := by
  induction t with
  | nil => rfl
  | cons c t ih =>
      by_cases hc : p c = true
      · have hsame : (squeeze sep (c :: t)).dropWhile p = (squeeze sep t).dropWhile p := by
          rw [squeeze]
          cases squeeze sep t with
          | nil => simp [hc]
          | cons d ds =>
              dsimp only
              split
              · rfl
              · rw [List.dropWhile_cons_of_pos hc]
        rw [hsame, ih, List.dropWhile_cons_of_pos hc]
      · have hkept : (squeeze sep (c :: t)).head? = some c := head?_squeeze sep (c :: t)
        obtain ⟨rest, hrest⟩ := List.head?_eq_some_iff.mp hkept
        rw [hrest, List.dropWhile_cons_of_neg hc, List.dropWhile_cons_of_neg hc]
        rfl

end MarkupIds.Text
