import Mathlib.Data.List.Sort
import MarkupIds.Proofs.Lists
import MarkupIds.Splice

/-!
# Splices that only insert

Splices that take nothing away never get in each other's way. Made from the end backwards, they
give what one pass over the text gives that inserts at each offset what belongs there.
-/

namespace MarkupIds.Splice

/-- What splices put in at an offset, in the order they are given. -/
def textAt (splices : List Splice) (offset : ℕ) : Text :=
  (splices.filter (·.start == offset)).flatMap (·.text)

/-- Inserts the texts of splices into a text that starts at an offset. -/
def insertFrom (splices : List Splice) : (offset : ℕ) → Text → Text
  | offset, [] => textAt splices offset
  | offset, c :: cs => textAt splices offset ++ c :: insertFrom splices (offset + 1) cs

/-- A splice that takes nothing away, at an offset of the text. -/
def InsertsInto (t : Text) (s : Splice) : Prop :=
  s.stop = s.start ∧ s.start ≤ t.length

/-! ## The pass over the text -/

theorem textAt_append (splices more : List Splice) (offset : ℕ) :
    textAt (splices ++ more) offset = textAt splices offset ++ textAt more offset := by
  simp [textAt]

theorem textAt_singleton (s : Splice) (offset : ℕ) :
    textAt [s] offset = if s.start = offset then s.text else [] := by
  by_cases h : s.start = offset <;> simp [textAt, h]

theorem textAt_of_lt {splices : List Splice} {offset : ℕ} (h : ∀ s ∈ splices, s.start < offset) :
    textAt splices offset = [] := by
  have hnone : splices.filter (·.start == offset) = [] := by
    rw [List.filter_eq_nil_iff]
    intro s hs
    simpa using (h s hs).ne
  rw [textAt, hnone, List.flatMap_nil]

theorem insertFrom_of_lt {splices : List Splice} {offset : ℕ}
    (h : ∀ s ∈ splices, s.start < offset) (t : Text) : insertFrom splices offset t = t := by
  induction t generalizing offset with
  | nil => exact textAt_of_lt h
  | cons c cs ih =>
      rw [insertFrom, textAt_of_lt h, ih fun s hs => Nat.lt_succ_of_lt (h s hs), List.nil_append]

theorem insertFrom_congr {splices others : List Splice}
    (h : ∀ offset, textAt splices offset = textAt others offset) (offset : ℕ) (t : Text) :
    insertFrom splices offset t = insertFrom others offset t := by
  induction t generalizing offset with
  | nil => exact h offset
  | cons c cs ih => rw [insertFrom, insertFrom, h, ih]

/-- The last of the splices comes in where it starts, and nothing comes in behind it. -/
theorem insertFrom_concat {splices : List Splice} {s : Splice}
    (hlast : ∀ r ∈ splices, r.start ≤ s.start) (offset : ℕ) (t : Text)
    (hstart : offset ≤ s.start) (hstop : s.start ≤ offset + t.length) :
    insertFrom (splices ++ [s]) offset t =
      insertFrom splices offset (t.take (s.start - offset)) ++ s.text ++
        t.drop (s.start - offset) := by
  induction t generalizing offset with
  | nil =>
      have hhere : s.start = offset := by
        rw [List.length_nil] at hstop
        omega
      simp [insertFrom, textAt_append, textAt_singleton, hhere]
  | cons c cs ih =>
      rw [insertFrom, textAt_append, textAt_singleton]
      by_cases hhere : s.start = offset
      · have hpassed : ∀ r ∈ splices ++ [s], r.start < offset + 1 := by
          intro r hr
          rcases List.mem_append.mp hr with hr | hr
          · have := hlast r hr
            omega
          · rw [List.mem_singleton.mp hr]
            omega
        rw [insertFrom_of_lt hpassed, hhere, Nat.sub_self]
        simp [insertFrom]
      · have hlater : offset + 1 ≤ s.start := by omega
        have hnext : s.start - offset = (s.start - (offset + 1)) + 1 := by omega
        rw [List.length_cons] at hstop
        rw [if_neg hhere, ih (offset + 1) hlater (by omega), hnext, List.take_succ_cons,
          List.drop_succ_cons, insertFrom]
        simp

/-! ## From the end backwards -/

theorem InsertsInto.apply_eq {t : Text} {s : Splice} (h : s.InsertsInto t) :
    s.apply t = t.take s.start ++ s.text ++ t.drop s.start := by
  rw [apply, h.1]

theorem InsertsInto.append {t : Text} {s : Splice} (h : s.InsertsInto t) (after : Text) :
    s.apply (t ++ after) = s.apply t ++ after := by
  rw [apply, apply, h.1, List.take_append_of_le_length h.2, List.drop_append_of_le_length h.2]
  simp

theorem InsertsInto.length_le {t : Text} {s : Splice} (h : s.InsertsInto t) :
    t.length ≤ (s.apply t).length := by
  have hparts : (s.apply t).length = (t.take s.start).length + s.text.length +
      (t.drop s.start).length := by
    rw [h.apply_eq, List.length_append, List.length_append]
  have hwhole : (t.take s.start).length + (t.drop s.start).length = t.length := by
    rw [← List.length_append, List.take_append_drop]
  omega

/-- What stands behind all splices is not touched. -/
theorem foldl_apply_append {splices : List Splice} {t : Text}
    (h : ∀ s ∈ splices, s.InsertsInto t) (after : Text) :
    splices.foldl (fun t s => s.apply t) (t ++ after) =
      splices.foldl (fun t s => s.apply t) t ++ after := by
  induction splices generalizing t with
  | nil => rfl
  | cons s splices ih =>
      have hs := h s (by simp)
      rw [List.foldl_cons, List.foldl_cons, hs.append, ih]
      intro r hr
      obtain ⟨hwidth, hplace⟩ := h r (by simp [hr])
      exact ⟨hwidth, hplace.trans hs.length_le⟩

/-- Insertions from the end backwards are all made: none reaches into a later one. -/
theorem applyBelow_insertions {splices : List Splice} {boundary : ℕ}
    (hwidth : ∀ s ∈ splices, s.stop = s.start) (hbound : ∀ s ∈ splices, s.start ≤ boundary)
    (hsorted : splices.Pairwise fun a b => b.start ≤ a.start) (t : Text) :
    applyBelow boundary t splices = (splices.foldl (fun t s => s.apply t) t, []) := by
  induction splices generalizing boundary t with
  | nil => rfl
  | cons s splices ih =>
      obtain ⟨hhead, htail⟩ := List.pairwise_cons.mp hsorted
      have hfits : ¬ boundary < s.stop := by
        rw [hwidth s (by simp), Nat.not_lt]
        exact hbound s (by simp)
      rw [applyBelow, if_neg hfits, ih (fun r hr => hwidth r (by simp [hr])) hhead htail,
        List.foldl_cons]

theorem foldl_apply_eq_insertFrom {splices : List Splice} {t : Text}
    (h : ∀ s ∈ splices, s.InsertsInto t)
    (hsorted : splices.Pairwise fun a b => b.start ≤ a.start) :
    splices.foldl (fun t s => s.apply t) t = insertFrom splices.reverse 0 t := by
  induction splices generalizing t with
  | nil => exact (insertFrom_of_lt (by simp) t).symm
  | cons s splices ih =>
      obtain ⟨hhead, htail⟩ := List.pairwise_cons.mp hsorted
      have hs := h s (by simp)
      -- The other splices all come in up to the start of this one.
      have hbefore : ∀ r ∈ splices, r.InsertsInto (t.take s.start) := by
        intro r hr
        refine ⟨(h r (by simp [hr])).1, ?_⟩
        rw [List.length_take, min_eq_left hs.2]
        exact hhead r hr
      have hlast : ∀ r ∈ splices.reverse, r.start ≤ s.start :=
        fun r hr => hhead r (List.mem_reverse.mp hr)
      rw [List.foldl_cons, hs.apply_eq, List.append_assoc, foldl_apply_append hbefore,
        ih hbefore htail, List.reverse_cons,
        insertFrom_concat hlast 0 t (Nat.zero_le _) (by simpa using hs.2), Nat.sub_zero,
        List.append_assoc]

/-! ## Splices in any order -/

theorem backward_perm (splices : List Splice) : (backward splices).Perm splices :=
  (List.mergeSort_perm _ _).trans splices.reverse_perm

theorem backward_pairwise (splices : List Splice) :
    (backward splices).Pairwise fun a b => b.start ≤ a.start :=
  pairwise_mergeSort_key Splice.start splices.reverse

/-- Splices that start together are brought into the reverse of their order. -/
theorem filter_backward (splices : List Splice) (offset : ℕ) :
    (backward splices).filter (·.start == offset) =
      (splices.filter (·.start == offset)).reverse := by
  rw [← List.filter_reverse]
  exact filter_mergeSort_key Splice.start splices.reverse offset

theorem textAt_reverse_backward (splices : List Splice) (offset : ℕ) :
    textAt (backward splices).reverse offset = textAt splices offset := by
  rw [textAt, List.filter_reverse, filter_backward, List.reverse_reverse, textAt]

/-- Splices that only insert are all made, each at its offset of the text as it was. -/
theorem applyAll_insertions {splices : List Splice} {t : Text}
    (h : ∀ s ∈ splices, s.InsertsInto t) :
    applyAll t splices = (insertFrom splices 0 t, []) := by
  have hmem : ∀ s ∈ backward splices, s.InsertsInto t :=
    fun s hs => h s ((backward_perm splices).mem_iff.mp hs)
  rw [applyAll, applyBelow_insertions (fun s hs => (hmem s hs).1) (fun s hs => (hmem s hs).2)
    (backward_pairwise splices), foldl_apply_eq_insertFrom hmem (backward_pairwise splices),
    insertFrom_congr (textAt_reverse_backward splices)]

/-- Two insertions at one offset keep their order, whatever else is inserted between them. -/
example : applyAll "ac".toList [⟨1, 1, "x".toList⟩, ⟨0, 0, "<".toList⟩, ⟨1, 1, "y".toList⟩] =
    ("<axyc".toList, []) := by
  rw [applyAll_insertions (by simp [InsertsInto])]
  decide

end MarkupIds.Splice
