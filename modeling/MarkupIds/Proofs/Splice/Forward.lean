import MarkupIds.Proofs.Splice
import Mathlib.Data.List.Induction
import Mathlib.Data.List.Sigma

/-!
# Splices in one forward pass

Splices are made from the end backwards, in a text that changes under them. The outcome is that of
one pass forward over the text as it was, which copies the gaps between the splices that are kept.
-/

namespace MarkupIds.Splice

/-! ## The order of the text -/

/-- A splice comes before another one: it starts earlier, or both start together and its place in
the list is the earlier one. -/
def Before (a b : Splice × ℕ) : Prop :=
  a.1.start < b.1.start ∨ a.1.start = b.1.start ∧ a.2 < b.2

instance (a b : Splice × ℕ) : Decidable (Before a b) :=
  inferInstanceAs (Decidable (a.1.start < b.1.start ∨ a.1.start = b.1.start ∧ a.2 < b.2))

/-- Splices with their places in the list, in the order of the text. -/
def inOrder (splices : List Splice) : List (Splice × ℕ) :=
  splices.zipIdx.mergeSort fun a b =>
    a.1.start < b.1.start || (a.1.start == b.1.start && a.2 ≤ b.2)

theorem Before.start_le {a b : Splice × ℕ} (h : Before a b) : a.1.start ≤ b.1.start := by
  unfold Before at h
  omega

theorem Before.asymm {a b : Splice × ℕ} (h : Before a b) : ¬ Before b a := by
  unfold Before at h ⊢
  omega

theorem inOrder_perm (splices : List Splice) : (inOrder splices).Perm splices.zipIdx :=
  List.mergeSort_perm _ _

theorem inOrder_pairwise (splices : List Splice) : (inOrder splices).Pairwise Before := by
  have hsorted : (inOrder splices).Pairwise fun a b =>
      (decide (a.1.start < b.1.start) ||
        (a.1.start == b.1.start && decide (a.2 ≤ b.2))) = true := by
    apply List.pairwise_mergeSort
    · intro a b c hab hbc
      simp only [Bool.or_eq_true, Bool.and_eq_true, decide_eq_true_eq, beq_iff_eq] at hab hbc ⊢
      omega
    · intro a b
      simp only [Bool.or_eq_true, Bool.and_eq_true, decide_eq_true_eq, beq_iff_eq]
      omega
  have hplaces : (inOrder splices).Pairwise fun a b => a.2 ≠ b.2 := by
    apply List.pairwise_map.mp
    exact ((inOrder_perm splices).map Prod.snd).nodup_iff.mpr (List.nodup_zipIdx_map_snd splices)
  refine hsorted.imp₂ ?_ hplaces
  intro a b hle hne
  simp only [Bool.or_eq_true, Bool.and_eq_true, decide_eq_true_eq, beq_iff_eq] at hle
  unfold Before
  omega

/-- Splices that start together stay in the order of the list. -/
theorem filter_inOrder (splices : List Splice) (offset : ℕ) :
    (inOrder splices).filter (·.1.start == offset) =
      splices.zipIdx.filter (·.1.start == offset) := by
  have hplaces : splices.zipIdx.Pairwise fun a b => a.2 < b.2 := by
    apply List.pairwise_map.mp
    rw [List.zipIdx_map_snd]
    exact List.pairwise_lt_range'
  have hsorted : ((inOrder splices).filter (·.1.start == offset)).Pairwise
      fun a b => a.2 < b.2 := by
    refine ((inOrder_pairwise splices).filter _).imp_of_mem ?_
    intro a b ha hb hab
    have hastart : a.1.start = offset := by simpa using (List.mem_filter.mp ha).2
    have hbstart : b.1.start = offset := by simpa using (List.mem_filter.mp hb).2
    unfold Before at hab
    omega
  refine List.Perm.eq_of_pairwise ?_ hsorted (hplaces.filter _) ((inOrder_perm splices).filter _)
  intro a b _ _ hab hba
  exact absurd hba (Nat.lt_asymm hab)

/-- The order in which splices are made is the order of the text, turned around. -/
theorem backward_eq_reverse (splices : List Splice) :
    backward splices = ((inOrder splices).map (·.1)).reverse := by
  refine mergeSort_key_eq Splice.start ?_ ?_
  · rw [List.pairwise_reverse]
    exact List.pairwise_map.mpr ((inOrder_pairwise splices).imp Before.start_le)
  · intro offset
    rw [List.filter_reverse, List.filter_reverse]
    refine congrArg List.reverse ?_
    calc ((inOrder splices).map (·.1)).filter (·.start == offset)
        = (splices.zipIdx.filter (·.1.start == offset)).map (·.1) := by
          rw [List.filter_map, ← filter_inOrder]
          rfl
      _ = splices.filter (·.start == offset) := by
          conv_rhs => rw [← List.zipIdx_map_fst 0 splices, List.filter_map]
          rfl

/-! ## Splices that are kept -/

/-- The splices that are made, of splices in the order of the text: one that reaches past the
start of the next one made is left out. -/
def kept : List (Splice × ℕ) → List (Splice × ℕ)
  | [] => []
  | a :: splices =>
    if (kept splices).head?.any (·.1.start < a.1.stop) then kept splices else a :: kept splices

theorem kept_sublist (splices : List (Splice × ℕ)) : (kept splices).Sublist splices := by
  induction splices with
  | nil => exact .slnil
  | cons a splices ih =>
      rw [kept]
      split
      · exact ih.cons a
      · exact ih.cons_cons a

/-- A splice ends before the next one that is kept begins, or is left out. -/
theorem kept_pairwise {splices : List (Splice × ℕ)} (hsorted : splices.Pairwise Before) :
    (kept splices).Pairwise fun a b => a.1.stop ≤ b.1.start := by
  induction splices with
  | nil => exact .nil
  | cons a splices ih =>
      obtain ⟨_, htail⟩ := List.pairwise_cons.mp hsorted
      rw [kept]
      split
      · exact ih htail
      · rename_i hfits
        refine List.pairwise_cons.mpr ⟨?_, ih htail⟩
        intro b hb
        have hkept := htail.sublist (kept_sublist splices)
        cases hnext : kept splices with
        | nil => simp [hnext] at hb
        | cons next rest =>
            have hreach : a.1.stop ≤ next.1.start := by simpa [hnext] using hfits
            rw [hnext] at hb hkept
            rcases List.mem_cons.mp hb with rfl | hb
            · exact hreach
            · exact hreach.trans (List.rel_of_pairwise_cons hkept hb).start_le

theorem find?_before_eq_head? {a : Splice × ℕ} {splices : List (Splice × ℕ)}
    (h : ∀ b ∈ splices, Before a b) : splices.find? (Before a ·) = splices.head? := by
  cases splices with
  | nil => rfl
  | cons b splices => exact List.find?_cons_of_pos (by simpa using h b (by simp))

/-- A splice is left out exactly when it reaches past the start of the first splice behind it that
is kept. -/
theorem not_mem_kept_iff {splices : List (Splice × ℕ)} (hsorted : splices.Pairwise Before)
    {a : Splice × ℕ} (ha : a ∈ splices) :
    a ∉ kept splices ↔
      ∃ b, (kept splices).find? (Before a ·) = some b ∧ b.1.start < a.1.stop := by
  induction splices with
  | nil => exact absurd ha (by simp)
  | cons first splices ih =>
      obtain ⟨hfirst, htail⟩ := List.pairwise_cons.mp hsorted
      rw [kept]
      rcases List.mem_cons.mp ha with rfl | hlater
      · have hbehind : ∀ b ∈ kept splices, Before a b :=
          fun b hb => hfirst b ((kept_sublist splices).mem hb)
        have hself : ¬ Before a a := fun h => h.asymm h
        have hnext := find?_before_eq_head? hbehind
        split
        · rename_i hreach
          refine iff_of_true (fun hmem => hself (hbehind a hmem)) ?_
          rw [hnext]
          simpa [Option.any_eq_true] using hreach
        · rename_i hreach
          refine iff_of_false (fun hout => hout (by simp)) ?_
          rw [List.find?_cons_of_neg (by simpa using hself), hnext]
          simpa [Option.any_eq_true] using hreach
      · have hnot : ¬ Before a first := (hfirst a hlater).asymm
        have hne : a ≠ first := by
          rintro rfl
          exact hnot (hfirst a hlater)
        split
        · exact ih htail hlater
        · rw [List.find?_cons_of_neg (by simpa using hnot), List.mem_cons, or_iff_right hne]
          exact ih htail hlater

/-! ## One pass forward -/

/-- Copies a text from `offset` on, with the texts of the splices in place of their spans. -/
def copyFrom (t : Text) : ℕ → List (Splice × ℕ) → Text
  | offset, [] => t.drop offset
  | offset, a :: splices =>
    (t.take a.1.start).drop offset ++ a.1.text ++ copyFrom t a.1.stop splices

/-- Where the first of some splices starts, or else the end of the text. -/
def reach (t : Text) (splices : List (Splice × ℕ)) : ℕ :=
  (splices.head?.map (·.1.start)).getD t.length

/-- Up to the first splice the text is copied as it is. -/
theorem copyFrom_eq_append {t : Text} {splices : List (Splice × ℕ)} {offset : ℕ}
    (h : offset ≤ reach t splices) :
    copyFrom t offset splices =
      (t.take (reach t splices)).drop offset ++ copyFrom t (reach t splices) splices := by
  cases splices with
  | nil => simp [copyFrom, reach]
  | cons a splices =>
      have hnone : (t.take a.1.start).drop a.1.start = [] := by simp
      simp [copyFrom, reach, hnone]

theorem reach_kept_le {t : Text} {splices : List (Splice × ℕ)}
    (hspans : ∀ a ∈ splices, a.1.start ≤ a.1.stop ∧ a.1.stop ≤ t.length) :
    reach t (kept splices) ≤ t.length := by
  cases hkept : kept splices with
  | nil => exact le_rfl
  | cons a rest =>
      obtain ⟨hspan, hend⟩ := hspans a ((kept_sublist splices).mem (by simp [hkept]))
      exact hspan.trans hend

/-- Whether a splice is kept depends on where the next one that is kept starts. -/
theorem kept_cons {t : Text} {a : Splice × ℕ} (hend : a.1.stop ≤ t.length)
    (splices : List (Splice × ℕ)) :
    kept (a :: splices) =
      if reach t (kept splices) < a.1.stop then kept splices else a :: kept splices := by
  have hnext : (kept splices).head?.any (·.1.start < a.1.stop) = true ↔
      reach t (kept splices) < a.1.stop := by
    cases kept splices with
    | nil => simpa [reach] using hend
    | cons b rest => simp [reach]
  exact if_congr hnext rfl rfl

/-- What stands in front of some splices has no say in which of them are kept. -/
theorem mem_kept_append {front splices : List (Splice × ℕ)}
    (hsorted : (front ++ splices).Pairwise Before) {a : Splice × ℕ} (ha : a ∈ splices) :
    a ∈ kept (front ++ splices) ↔ a ∈ kept splices := by
  induction front with
  | nil => rfl
  | cons b front ih =>
      rw [List.cons_append, List.pairwise_cons] at hsorted
      obtain ⟨hfirst, htail⟩ := hsorted
      have hne : a ≠ b := by
        rintro rfl
        have hself := hfirst a (List.mem_append_right front ha)
        exact hself.asymm hself
      rw [List.cons_append, kept]
      split
      · exact ih htail
      · rw [List.mem_cons, or_iff_right hne]
        exact ih htail

theorem apply_take_append {t : Text} {s : Splice} {r : ℕ} (hspan : s.start ≤ s.stop)
    (hstop : s.stop ≤ r) (hr : r ≤ t.length) (tail : Text) :
    s.apply (t.take r ++ tail) =
      t.take s.start ++ (s.text ++ ((t.take r).drop s.stop ++ tail)) := by
  have hlength : (t.take r).length = r := by simpa using hr
  rw [apply, List.take_append_of_le_length (by omega), List.drop_append_of_le_length (by omega),
    List.take_take, min_eq_left (hspan.trans hstop), List.append_assoc]

/-- The invariant of a run backwards: from the first splice made so far on, the text is done;
before it, the text is as it was. -/
theorem applyBelow_eq_copyFrom {t : Text} (front done : List (Splice × ℕ))
    (hspans : ∀ a ∈ front ++ done, a.1.start ≤ a.1.stop ∧ a.1.stop ≤ t.length)
    (hsorted : (front ++ done).Pairwise Before) :
    applyBelow (reach t (kept done))
        (t.take (reach t (kept done)) ++ copyFrom t (reach t (kept done)) (kept done))
        (front.map (·.1)).reverse =
      (copyFrom t 0 (kept (front ++ done)),
        ((front.filter (· ∉ kept (front ++ done))).map (·.1.start)).reverse) := by
  induction front using List.reverseRecOn generalizing done with
  | nil =>
      rw [List.nil_append, copyFrom_eq_append (Nat.zero_le _)]
      rfl
  | append_singleton front a ih =>
      rw [List.append_assoc, List.singleton_append] at hspans hsorted ⊢
      obtain ⟨hspan, hend⟩ := hspans a (by simp)
      have hafter := ih (a :: done) hspans hsorted
      have hmem := mem_kept_append hsorted (a := a) (by simp)
      have hself : a ∉ kept done := by
        intro hkept
        have hbefore := (List.pairwise_cons.mp (List.pairwise_append.mp hsorted).2.1).1 a
          ((kept_sublist done).mem hkept)
        exact hbefore.asymm hbefore
      rw [List.map_append, List.map_singleton, List.reverse_append, List.reverse_singleton,
        List.singleton_append, applyBelow, List.filter_append, List.filter_singleton]
      rw [kept_cons hend] at hafter hmem
      by_cases hreach : reach t (kept done) < a.1.stop
      · -- The splice reaches into one that is made: nothing changes.
        rw [if_pos hreach] at hafter hmem ⊢
        rw [hafter]
        simp [hmem, hself]
      · rw [if_neg hreach] at hafter hmem ⊢
        rw [Nat.not_lt] at hreach
        have hlength := reach_kept_le fun b (hb : b ∈ done) => hspans b (by simp [hb])
        have hstart : reach t (a :: kept done) = a.1.start := rfl
        have hnone : (t.take a.1.start).drop a.1.start = [] := by simp
        rw [hstart, copyFrom, hnone, List.nil_append, copyFrom_eq_append hreach] at hafter
        rw [apply_take_append hspan hreach hlength, hafter]
        simp [hmem]

/-! ## All splices -/

/-- The splices that only insert at an offset. -/
def insertsAt (offset : ℕ) (s : Splice) : Bool :=
  s.start == offset && s.stop == offset

/-- Splices of no width are never left out. -/
theorem filter_kept {splices : List (Splice × ℕ)} (hsorted : splices.Pairwise Before)
    {p : Splice × ℕ → Bool} (hwidth : ∀ a, p a = true → a.1.stop ≤ a.1.start) :
    (kept splices).filter p = splices.filter p := by
  induction splices with
  | nil => rfl
  | cons a splices ih =>
      obtain ⟨hfirst, htail⟩ := List.pairwise_cons.mp hsorted
      rw [kept, List.filter_cons]
      split
      · rename_i hreach
        obtain ⟨b, hb, hinto⟩ := Option.any_eq_true _ _ |>.mp hreach
        have hbefore := hfirst b ((kept_sublist splices).mem (List.mem_of_mem_head? hb))
        have hwide : p a ≠ true := by
          intro ha
          have hstart := hbefore.start_le
          have hstop := hwidth a ha
          simp only [decide_eq_true_eq] at hinto
          omega
        rw [if_neg hwide, ih htail]
      · rw [List.filter_cons, ih htail]

theorem filter_insertsAt (splices : List Splice) (offset : ℕ) :
    (kept (inOrder splices)).filter (·.1.insertsAt offset) =
      splices.zipIdx.filter (·.1.insertsAt offset) := by
  have htogether : ∀ placed : List (Splice × ℕ), placed.filter (·.1.insertsAt offset) =
      (placed.filter (·.1.start == offset)).filter (·.1.stop == offset) := by
    intro placed
    rw [List.filter_filter]
    simp only [insertsAt, Bool.and_comm]
  rw [filter_kept (inOrder_pairwise splices), htogether, filter_inOrder, ← htogether]
  intro a ha
  simp only [insertsAt, Bool.and_eq_true, beq_iff_eq] at ha
  omega

/-- Making splices from the end backwards copies the text once forward, with the texts of the kept
splices in place of their spans. These do not overlap, insertions at one offset are all among them
in the order of the list, and a splice is left out, and reported, exactly when it reaches past the
start of the nearest kept one behind it. -/
theorem applyAll_eq_forward_pass (t : Text) (splices : List Splice)
    (hspans : ∀ s ∈ splices, s.start ≤ s.stop ∧ s.stop ≤ t.length) :
    let made := kept (inOrder splices)
    applyAll t splices = (copyFrom t 0 made,
        (((inOrder splices).filter (· ∉ made)).map (·.1.start)).reverse) ∧
      made.Sublist (inOrder splices) ∧
      made.Pairwise (fun a b => a.1.stop ≤ b.1.start) ∧
      (∀ offset, made.filter (·.1.insertsAt offset) =
        splices.zipIdx.filter (·.1.insertsAt offset)) ∧
      ∀ a ∈ splices.zipIdx, a ∉ made ↔
        ∃ b, made.find? (Before a ·) = some b ∧ b.1.start < a.1.stop := by
  intro made
  have hsorted := inOrder_pairwise splices
  have hplaced : ∀ a ∈ inOrder splices, a.1.start ≤ a.1.stop ∧ a.1.stop ≤ t.length := by
    intro a ha
    exact hspans a.1 (List.fst_mem_of_mem_zipIdx ((inOrder_perm splices).mem_iff.mp ha))
  refine ⟨?_, kept_sublist _, kept_pairwise hsorted, filter_insertsAt splices, ?_⟩
  · have hrun := applyBelow_eq_copyFrom (inOrder splices) [] (by simpa using hplaced)
      (by simpa using hsorted)
    rw [← backward_eq_reverse, List.append_nil] at hrun
    have hstart : t.take (reach t (kept [])) ++ copyFrom t (reach t (kept [])) (kept []) = t := by
      simp [kept, reach, copyFrom]
    rw [hstart] at hrun
    exact hrun
  · intro a ha
    exact not_mem_kept_iff hsorted ((inOrder_perm splices).mem_iff.mpr ha)

/-- A replacement that reaches into a later one is left out; two insertions at one offset, on
both sides of it in the list, keep their order. -/
theorem applyAll_eq_forward_pass_overlap :
    let t := "abcdef".toList
    let splices : List Splice := [⟨2, 2, ['x']⟩, ⟨1, 4, ['-']⟩, ⟨2, 2, ['y']⟩, ⟨3, 5, ['z']⟩]
    (∀ s ∈ splices, s.start ≤ s.stop ∧ s.stop ≤ t.length) ∧
      applyAll t splices = ("abxyczf".toList, [1]) := by
  intro t splices
  have hspans : ∀ s ∈ splices, s.start ≤ s.stop ∧ s.stop ≤ t.length := by decide
  have horder : inOrder splices =
      [(⟨1, 4, ['-']⟩, 1), (⟨2, 2, ['x']⟩, 0), (⟨2, 2, ['y']⟩, 2), (⟨3, 5, ['z']⟩, 3)] := by
    refine List.Perm.eq_of_pairwise ?_ (inOrder_pairwise splices) ?_
      ((inOrder_perm splices).trans ?_)
    · intro a b _ _ hab hba
      exact absurd hba hab.asymm
    · decide
    · decide
  refine ⟨hspans, (applyAll_eq_forward_pass t splices hspans).1.trans ?_⟩
  rw [horder]
  decide

end MarkupIds.Splice
