import Mathlib.Data.List.Forall2
import Mathlib.Data.List.Induction
import Mathlib.Data.List.Nodup
import Mathlib.Order.Lattice

/-!
# Lists that are sorted, freed of repeats or run through

Sorting by a key, the greatest first, keeps the order of entries with equal keys, and a sorted list
is determined by its entries for each key. Repeats are left out from the end. A run over a list that
may fail gives one result for each entry.
-/

namespace MarkupIds

/-! ## Sorting by a key -/

section Key

variable {α κ : Type*} [LinearOrder κ] {key : α → κ}

theorem key_trans (key : α → κ) (a b c : α) (hab : decide (key b ≤ key a) = true)
    (hbc : decide (key c ≤ key b) = true) : decide (key c ≤ key a) = true := by
  simp only [decide_eq_true_eq] at hab hbc ⊢
  exact hbc.trans hab

theorem key_total (key : α → κ) (a b : α) :
    (decide (key b ≤ key a) || decide (key a ≤ key b)) = true := by
  simp only [Bool.or_eq_true, decide_eq_true_eq]
  exact le_total _ _

theorem pairwise_mergeSort_key (key : α → κ) (xs : List α) :
    (xs.mergeSort fun a b => key b ≤ key a).Pairwise fun a b => key b ≤ key a := by
  have hsorted := List.pairwise_mergeSort (key_trans key) (key_total key) xs
  exact hsorted.imp fun h => of_decide_eq_true h

/-- Sorting is stable. -/
theorem filter_mergeSort_key (key : α → κ) (xs : List α) (k : κ) :
    (xs.mergeSort fun a b => key b ≤ key a).filter (key · == k) = xs.filter (key · == k) := by
  have htogether : (xs.filter (key · == k)).Pairwise fun a b => decide (key b ≤ key a) = true := by
    rw [List.pairwise_iff_forall_sublist]
    intro a b hsublist
    have ha := List.mem_filter.mp (hsublist.subset (by simp : a ∈ [a, b]))
    have hb := List.mem_filter.mp (hsublist.subset (by simp : b ∈ [a, b]))
    simp only [beq_iff_eq] at ha hb
    simp [ha.2, hb.2]
  have hkept := (List.sublist_mergeSort (key_trans key) (key_total key) htogether
    List.filter_sublist).filter (key · == k)
  rw [List.filter_filter] at hkept
  simp only [Bool.and_self] at hkept
  refine (hkept.eq_of_length ?_).symm
  exact (((List.mergeSort_perm xs _).filter _).length_eq).symm

theorem mem_of_filter_key {xs ys : List α}
    (h : ∀ k, xs.filter (key · == k) = ys.filter (key · == k)) {a : α} (ha : a ∈ xs) :
    a ∈ ys := by
  have hfilter : a ∈ xs.filter (key · == key a) := List.mem_filter.mpr ⟨ha, by simp⟩
  rw [h] at hfilter
  exact (List.mem_filter.mp hfilter).1

/-- Lists sorted by a key are equal if they agree at every key. -/
theorem eq_of_filter_key {xs ys : List α} (hxs : xs.Pairwise fun a b => key b ≤ key a)
    (hys : ys.Pairwise fun a b => key b ≤ key a)
    (h : ∀ k, xs.filter (key · == k) = ys.filter (key · == k)) : xs = ys := by
  induction xs generalizing ys with
  | nil =>
      cases ys with
      | nil => rfl
      | cons y ys =>
          exact absurd (mem_of_filter_key (fun k => (h k).symm) (a := y) (by simp)) (by simp)
  | cons x xs ih =>
      cases ys with
      | nil => exact absurd (mem_of_filter_key h (a := x) (by simp)) (by simp)
      | cons y ys =>
          obtain ⟨hxhead, hxtail⟩ := List.pairwise_cons.mp hxs
          obtain ⟨hyhead, hytail⟩ := List.pairwise_cons.mp hys
          have hle : key x ≤ key y := by
            rcases List.mem_cons.mp (mem_of_filter_key h (a := x) (by simp)) with rfl | hx
            · exact le_rfl
            · exact hyhead x hx
          have hge : key y ≤ key x := by
            have hy := mem_of_filter_key (fun k => (h k).symm) (a := y) (by simp)
            rcases List.mem_cons.mp hy with rfl | hy
            · exact le_rfl
            · exact hxhead y hy
          have hkey : key y = key x := le_antisymm hge hle
          have hheads := h (key x)
          rw [List.filter_cons_of_pos (by simp), List.filter_cons_of_pos (by simp [hkey]),
            List.cons.injEq] at hheads
          obtain ⟨rfl, htogether⟩ := hheads
          have htails : ∀ k, xs.filter (key · == k) = ys.filter (key · == k) := by
            intro k
            by_cases hk : key x = k
            · rw [← hk, htogether]
            · have hkeys := h k
              rwa [List.filter_cons_of_neg (by simpa using hk),
                List.filter_cons_of_neg (by simpa using hk)] at hkeys
          rw [ih hxtail hytail htails]

theorem mergeSort_key_eq (key : α → κ) {xs ys : List α}
    (hys : ys.Pairwise fun a b => key b ≤ key a)
    (h : ∀ k, ys.filter (key · == k) = xs.filter (key · == k)) :
    xs.mergeSort (fun a b => key b ≤ key a) = ys := by
  refine eq_of_filter_key (pairwise_mergeSort_key key xs) hys ?_
  intro k
  rw [filter_mergeSort_key, h]

/-- Leaving entries out and sorting may be done in either order. -/
theorem mergeSort_key_filter (key : α → κ) (p : α → Bool) (xs : List α) :
    (xs.filter p).mergeSort (fun a b => key b ≤ key a) =
      (xs.mergeSort fun a b => key b ≤ key a).filter p := by
  refine mergeSort_key_eq key ((pairwise_mergeSort_key key xs).filter p) ?_
  intro k
  calc ((xs.mergeSort fun a b => key b ≤ key a).filter p).filter (key · == k)
      = ((xs.mergeSort fun a b => key b ≤ key a).filter (key · == k)).filter p := by
        rw [List.filter_filter, List.filter_filter]
        exact List.filter_congr fun a _ => Bool.and_comm _ _
    _ = (xs.filter p).filter (key · == k) := by
        rw [filter_mergeSort_key, List.filter_filter, List.filter_filter]
        exact List.filter_congr fun a _ => Bool.and_comm _ _

/-- The greatest entry, the earliest among equals, comes first. -/
theorem head?_mergeSort_key (key : α → κ) {front back : List α} {a : α}
    (hfront : ∀ b ∈ front, key b < key a) (hback : ∀ b ∈ back, key b ≤ key a) :
    ((front ++ a :: back).mergeSort fun a b => key b ≤ key a).head? = some a := by
  have hmem : a ∈ (front ++ a :: back).mergeSort fun a b => key b ≤ key a :=
    List.mem_mergeSort.mpr (by simp)
  have hsorted := pairwise_mergeSort_key key (front ++ a :: back)
  have hstable := filter_mergeSort_key key (front ++ a :: back) (key a)
  cases hfirst : (front ++ a :: back).mergeSort fun a b => key b ≤ key a with
  | nil => simp [hfirst] at hmem
  | cons b rest =>
      rw [hfirst] at hmem hsorted hstable
      have hbetween : key b ≤ key a := by
        have hb : b ∈ front ++ a :: back := List.mem_mergeSort.mp (hfirst ▸ List.mem_cons_self)
        rcases List.mem_append.mp hb with hb | hb
        · exact (hfront b hb).le
        · rcases List.mem_cons.mp hb with rfl | hb
          · exact le_rfl
          · exact hback b hb
      have hleast : key a ≤ key b := by
        rcases List.mem_cons.mp hmem with rfl | ha
        · exact le_rfl
        · exact List.rel_of_pairwise_cons hsorted ha
      have hnone : front.filter (key · == key a) = [] := by
        simpa [List.filter_eq_nil_iff] using fun b hb => (hfront b hb).ne
      have hsame : key b = key a := le_antisymm hbetween hleast
      rw [List.filter_append, hnone, List.filter_cons_of_pos (by simp [hsame]),
        List.nil_append, List.filter_cons_of_pos (by simp)] at hstable
      rw [List.head?_cons, (List.cons.inj hstable).1]

end Key

/-! ## Lists without repeats -/

section Repeats

variable {α : Type*} [BEq α] [LawfulBEq α]

theorem eraseDups_concat (xs : List α) (a : α) :
    (xs ++ [a]).eraseDups = if a ∈ xs then xs.eraseDups else xs.eraseDups ++ [a] := by
  rw [List.eraseDups_append]
  by_cases hmem : a ∈ xs
  · simp [List.removeAll, hmem]
  · simp [List.removeAll, hmem, List.eraseDups_cons]

theorem nodup_eraseDups (xs : List α) : xs.eraseDups.Nodup := by
  induction xs using List.reverseRecOn with
  | nil => exact List.nodup_nil
  | append_singleton xs a ih =>
      rw [eraseDups_concat]
      split
      · exact ih
      · rename_i hnew
        rw [← List.concat_eq_append]
        apply List.Nodup.concat _ ih
        rwa [List.mem_eraseDups]

theorem length_eraseDups_le (xs : List α) : xs.eraseDups.length ≤ xs.length := by
  induction xs using List.reverseRecOn with
  | nil => exact Nat.le_refl _
  | append_singleton xs a ih =>
      rw [eraseDups_concat, List.length_append, List.length_singleton]
      split
      · exact Nat.le_succ_of_le ih
      · simpa using ih

/-- Leaving entries out and leaving repeats out may be done in either order. -/
theorem eraseDups_filter (p : α → Bool) (xs : List α) :
    (xs.filter p).eraseDups = xs.eraseDups.filter p := by
  induction xs using List.reverseRecOn with
  | nil => rfl
  | append_singleton xs a ih =>
      rw [List.filter_append, eraseDups_concat]
      by_cases ha : p a = true
      · rw [List.filter_cons_of_pos ha, List.filter_nil, eraseDups_concat]
        by_cases hmem : a ∈ xs
        · rw [if_pos (List.mem_filter.mpr ⟨hmem, ha⟩), if_pos hmem, ih]
        · rw [if_neg fun h => hmem (List.mem_filter.mp h).1, if_neg hmem, ih, List.filter_append,
            List.filter_cons_of_pos ha, List.filter_nil]
      · rw [List.filter_cons_of_neg ha, List.filter_nil, List.append_nil, ih]
        split
        · rfl
        · rw [List.filter_append, List.filter_cons_of_neg ha, List.filter_nil, List.append_nil]

end Repeats

/-! ## Runs that may fail -/

theorem bind_eq_ok_iff {ε α β : Type} {x : Except ε α} {f : α → Except ε β} {b : β} :
    (x >>= f) = .ok b ↔ ∃ a, x = .ok a ∧ f a = .ok b := by
  cases x <;> simp [bind, Except.bind]

theorem mapM_eq_ok_iff {ε α β : Type*} {f : α → Except ε β} {xs : List α} {ys : List β} :
    xs.mapM f = .ok ys ↔ List.Forall₂ (fun x y => f x = .ok y) xs ys := by
  induction xs generalizing ys with
  | nil =>
      cases ys with
      | nil => exact iff_of_true rfl .nil
      | cons y ys => exact iff_of_false nofun nofun
  | cons x xs ih =>
      rw [List.mapM_cons]
      cases hx : f x with
      | error e => cases ys <;> simp [bind, Except.bind, hx]
      | ok y =>
          cases hxs : xs.mapM f with
          | error e => cases ys <;> simp [bind, Except.bind, ← ih, hx, hxs]
          | ok zs => cases ys <;> simp [bind, Except.bind, pure, Except.pure, ← ih, hx, hxs]

end MarkupIds
