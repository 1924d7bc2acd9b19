import MarkupIds.Text.Basic
import Mathlib.Data.List.Basic
import Mathlib.Data.List.Infix

/-! # Parts of texts -/

namespace MarkupIds.Text

theorem dropTailWhile_isPrefix (p : Char → Bool) (t : Text) : dropTailWhile p t <+: t := by
  have h := (List.dropWhile_suffix p (l := t.reverse)).reverse
  rwa [List.reverse_reverse] at h

theorem trimWhile_sublist (p : Char → Bool) (t : Text) : (trimWhile p t).Sublist t :=
  (dropTailWhile_isPrefix p _).sublist.trans (List.dropWhile_sublist p)

theorem squeeze_sublist (sep : Char) (t : Text) : (squeeze sep t).Sublist t := by
  induction t with
  | nil => exact .slnil
  | cons c t ih =>
      rw [squeeze]
      cases hrest : squeeze sep t with
      | nil => simp
      | cons d ds =>
          rw [hrest] at ih
          dsimp only
          split
          · exact ih.cons c
          · exact ih.cons_cons c

theorem takeSigned_isPrefix {α : Type} (n : ℤ) (t : List α) : takeSigned n t <+: t := by
  unfold takeSigned
  split <;> exact List.take_prefix _ _

/-! ## Trimmed ends -/

theorem dropTailWhile_append_of_all {p : Char → Bool} {t s : Text}
    (h : ∀ c ∈ s, p c = true) : dropTailWhile p (t ++ s) = dropTailWhile p t := by
  unfold dropTailWhile
  rw [List.reverse_append, List.dropWhile_append_of_pos]
  intro c hc
  exact h c (List.mem_reverse.mp hc)

theorem dropTailWhile_eq_self {p : Char → Bool} {t : Text}
    (h : ∀ c ∈ t.getLast?, p c = false) : dropTailWhile p t = t := by
  rcases List.eq_nil_or_concat t with rfl | ⟨front, c, rfl⟩
  · rfl
  · simp [dropTailWhile, h c (by simp)]

theorem dropTailWhile_cons {p : Char → Bool} {c : Char} (hc : p c = false) (t : Text) :
    dropTailWhile p (c :: t) = c :: dropTailWhile p t := by
  simp [dropTailWhile, List.dropWhile_append, hc]

/-! ## Replacing -/

theorem eq_append_of_after? {p t rest : Text} (h : after? p t = some rest) : t = p ++ rest := by
  induction p generalizing t with
  | nil => exact Option.some.inj h
  | cons a p ih =>
      cases t with
      | nil => exact nomatch h
      | cons c t =>
          rw [after?] at h
          split at h
          · rename_i hsame
            rw [ih h, beq_iff_eq.mp hsame]
            rfl
          · exact nomatch h

theorem eq_append_of_cut? {p t before rest : Text} (h : cut? p t = some (before, rest)) :
    t = before ++ (p ++ rest) := by
  induction t generalizing before with
  | nil =>
      rw [cut?] at h
      split at h
      · rename_i hempty
        obtain rfl : p = [] := by simpa using hempty
        simp_all
      · exact nomatch h
  | cons c t ih =>
      rw [cut?] at h
      split at h
      · rename_i hafter
        obtain ⟨rfl, rfl⟩ := Prod.mk.inj (Option.some.inj h)
        rw [List.nil_append]
        exact eq_append_of_after? hafter
      · obtain ⟨⟨before', rest'⟩, hcut, hparts⟩ := Option.map_eq_some_iff.mp h
        obtain ⟨rfl, rfl⟩ := Prod.mk.inj hparts
        rw [ih hcut]
        rfl

theorem replaceCuts_subset (old new : Text) (fuel : ℕ) (t : Text) :
    replaceCuts old new fuel t ⊆ t ++ new := by
  induction fuel generalizing t with
  | zero => exact List.subset_append_left t new
  | succ fuel ih =>
      rw [replaceCuts]
      split
      · exact List.subset_append_left t new
      · rename_i before rest hcut
        have hlater := ih rest
        rw [eq_append_of_cut? hcut]
        intro c hc
        simp only [List.mem_append] at hc ⊢
        rcases hc with (hc | hc) | hc
        · exact .inl (.inl hc)
        · exact .inr hc
        · rcases List.mem_append.mp (hlater hc) with hrest | hnew
          · exact .inl (.inr (.inr hrest))
          · exact .inr hnew

/-- What is put in comes from the text or from the replacement. -/
theorem replace_subset (old new t : Text) : replace old new t ⊆ t ++ new := by
  unfold replace
  split
  · intro c hc
    simp only [List.mem_append, List.mem_flatMap, List.mem_cons] at hc ⊢
    rcases hc with hc | ⟨d, hd, rfl | hc⟩
    · exact .inr hc
    · exact .inl hd
    · exact .inr hc
  · exact replaceCuts_subset old new _ t

theorem cut?_singleton_eq_none {c : Char} {t : Text} (h : c ∉ t) : cut? [c] t = none := by
  induction t with
  | nil => rfl
  | cons d t ih =>
      simp only [List.mem_cons, not_or] at h
      simp [cut?, after?, h.1, ih h.2]

theorem replace_of_not_mem {c : Char} {t : Text} (h : c ∉ t) (new : Text) :
    replace [c] new t = t := by
  simp [replace, replaceCuts, cut?_singleton_eq_none h]

/-! ## Runs of characters -/

theorem bne_of_not_mem {stop : Char} {t : Text} (h : stop ∉ t) : ∀ c ∈ t, (c != stop) = true := by
  intro c hc
  simp only [bne_iff_ne, ne_eq]
  rintro rfl
  exact h hc

theorem takeWhile_append_stop {p : Char → Bool} {run rest : Text}
    (hrun : ∀ c ∈ run, p c = true) (hrest : ∀ c ∈ rest.head?, p c = false) :
    (run ++ rest).takeWhile p = run := by
  rw [List.takeWhile_append_of_pos hrun]
  cases rest with
  | nil => simp
  | cons c rest => simp [hrest c rfl]

theorem dropWhile_append_stop {p : Char → Bool} {run rest : Text}
    (hrun : ∀ c ∈ run, p c = true) (hrest : ∀ c ∈ rest.head?, p c = false) :
    (run ++ rest).dropWhile p = rest := by
  rw [List.dropWhile_append_of_pos hrun]
  cases rest with
  | nil => simp
  | cons c rest => simp [hrest c rfl]

theorem head?_dropWhile {p : Char → Bool} (t : Text) :
    ∀ c ∈ (t.dropWhile p).head?, p c = false := by
  intro c hc
  have h := List.head?_dropWhile_not p t
  rw [Option.mem_def.mp hc] at h
  simpa using h

theorem dropWhile_append_cons {p : Char → Bool} {c : Char} (hc : p c = false)
    (front rest : Text) : (front ++ c :: rest).dropWhile p = front.dropWhile p ++ c :: rest := by
  induction front with
  | nil => simp [hc]
  | cons d front ih =>
      rw [List.cons_append, List.dropWhile_cons, List.dropWhile_cons, ih]
      split <;> rfl

theorem takeWhile_append {p : Char → Bool} (run : Text) {rest : Text}
    (hrest : ∀ c ∈ rest.head?, p c = false) : (run ++ rest).takeWhile p = run.takeWhile p := by
  induction run with
  | nil => exact takeWhile_append_stop (by simp) hrest
  | cons c run ih => rw [List.cons_append, List.takeWhile_cons, List.takeWhile_cons, ih]

theorem dropWhile_append {p : Char → Bool} (run : Text) {rest : Text}
    (hrest : ∀ c ∈ rest.head?, p c = false) :
    (run ++ rest).dropWhile p = run.dropWhile p ++ rest := by
  cases rest with
  | nil => simp
  | cons c rest => exact dropWhile_append_cons (hrest c rfl) run rest

/-! ## Openings -/

/-- An opening cannot reach past a character that it does not have. -/
theorem after?_append_cons {p : Text} {c : Char} (hc : c ∉ p) (front rest : Text) :
    after? p (front ++ c :: rest) = (after? p front).map (· ++ c :: rest) := by
  induction p generalizing front with
  | nil => rfl
  | cons a p ih =>
      simp only [List.mem_cons, not_or] at hc
      cases front with
      | nil => simp [after?, Ne.symm hc.1]
      | cons d front =>
          simp only [List.cons_append, after?]
          split
          · exact ih hc.2 front
          · rfl

theorem startsWith_append_cons {p : Text} {c : Char} (hc : c ∉ p) (front rest : Text) :
    startsWith p (front ++ c :: rest) = startsWith p front := by
  rw [startsWith, after?_append_cons hc, Option.isSome_map, startsWith]

theorem after?_self_append (p rest : Text) : after? p (p ++ rest) = some rest := by
  induction p with
  | nil => rfl
  | cons a p ih => simpa [after?] using ih

theorem startsWith_iff_prefix {p t : Text} : startsWith p t = true ↔ p <+: t := by
  rw [startsWith, Option.isSome_iff_exists]
  constructor
  · rintro ⟨rest, hrest⟩
    exact ⟨rest, (eq_append_of_after? hrest).symm⟩
  · rintro ⟨rest, rfl⟩
    exact ⟨rest, after?_self_append p rest⟩

/-- A text that stands across a character has the character. -/
theorem infix_of_infix_append_cons {p front rest : Text} {c : Char} (hc : c ∉ p)
    (h : p <:+: front ++ c :: rest) : p <:+: front ∨ p <:+: rest := by
  obtain ⟨s, t, hparts⟩ := h
  rcases List.append_eq_append_iff.mp hparts with ⟨k, hfront, _⟩ | ⟨k, hleft, hright⟩
  · exact .inl ⟨s, k, hfront.symm⟩
  · cases k with
    | nil => exact .inl ⟨s, [], by simpa using hleft⟩
    | cons d k =>
        obtain ⟨rfl, rfl⟩ := List.cons.inj hright
        rcases List.append_eq_append_iff.mp hleft with ⟨m, _, hp⟩ | ⟨m, _, hk⟩
        · exact (hc (hp ▸ by simp)).elim
        · cases m with
          | nil =>
              obtain rfl : c :: k = p := by simpa using hk
              exact (hc List.mem_cons_self).elim
          | cons e m => exact .inr ⟨m, t, by simp [(List.cons.inj hk).2]⟩

theorem cut?_cons_eq_none {p t : Text} {c : Char} (h : cut? p (c :: t) = none) :
    ¬ p <+: c :: t ∧ cut? p t = none := by
  rw [cut?] at h
  split at h
  · exact nomatch h
  · rename_i hafter
    rw [Option.map_eq_none_iff] at h
    refine ⟨fun hprefix => ?_, h⟩
    rw [← startsWith_iff_prefix, startsWith, hafter] at hprefix
    exact Bool.noConfusion hprefix

theorem cut?_cons_eq_some {p t before rest : Text} {c : Char}
    (h : cut? p (c :: t) = some (before, rest)) :
    before = [] ∧ c :: t = p ++ rest ∨
      ¬ p <+: c :: t ∧ ∃ before', before = c :: before' ∧ cut? p t = some (before', rest) := by
  rw [cut?] at h
  split at h
  · rename_i hafter
    obtain ⟨rfl, rfl⟩ := Prod.mk.inj (Option.some.inj h)
    exact .inl ⟨rfl, eq_append_of_after? hafter⟩
  · rename_i hafter
    obtain ⟨⟨before', rest'⟩, hcut, hparts⟩ := Option.map_eq_some_iff.mp h
    obtain ⟨rfl, rfl⟩ := Prod.mk.inj hparts
    refine .inr ⟨fun hprefix => ?_, before', rfl, hcut⟩
    rw [← startsWith_iff_prefix, startsWith, hafter] at hprefix
    exact Bool.noConfusion hprefix

theorem length_le_of_startsWith {p t : Text} (h : startsWith p t = true) :
    p.length ≤ t.length := by
  unfold startsWith at h
  induction p generalizing t with
  | nil => exact Nat.zero_le _
  | cons a p ih =>
      cases t with
      | nil => exact Bool.noConfusion h
      | cons c t =>
          simp only [after?] at h
          split at h
          · exact Nat.succ_le_succ (ih h)
          · exact Bool.noConfusion h

/-! ## Lines -/

theorem splitWhere_eq_splitOnP (p : Char → Bool) (t : Text) : splitWhere p t = t.splitOnP p := by
  induction t with
  | nil => rfl
  | cons c t ih =>
      rw [splitWhere, List.splitOnP_cons_eq_if_modifyHead, ih]
      split
      · rfl
      · cases hsplit : t.splitOnP p with
        | nil => exact absurd hsplit (List.splitOnP_ne_nil p t)
        | cons piece pieces => rfl

theorem split_eq_splitOn (sep : Char) (t : Text) : split sep t = t.splitOn sep :=
  splitWhere_eq_splitOnP _ t

theorem not_mem_of_mem_split {sep : Char} {t piece : Text} (h : piece ∈ split sep t) :
    sep ∉ piece := by
  induction t generalizing piece with
  | nil =>
      obtain rfl : piece = [] := by simpa [split, splitWhere] using h
      simp
  | cons c t ih =>
      rw [split, splitWhere] at h
      split at h
      · rcases List.mem_cons.mp h with rfl | h
        · simp
        · exact ih h
      · rename_i hc
        have hne : sep ≠ c := by
          rintro rfl
          exact hc (by simp)
        cases hsplit : splitWhere (· == sep) t with
        | nil =>
            obtain rfl : piece = [c] := by simpa [hsplit] using h
            simpa using hne
        | cons first pieces =>
            simp only [hsplit, List.mem_cons] at h
            rcases h with rfl | h
            · have hfirst : sep ∉ first := ih (by simp [split, hsplit])
              simpa [hfirst] using hne
            · exact ih (by simp [split, hsplit, h])

theorem split_join {sep : Char} {pieces : List Text} (h : ∀ piece ∈ pieces, sep ∉ piece)
    (hne : pieces ≠ []) : split sep (join [sep] pieces) = pieces := by
  rw [split_eq_splitOn, join]
  exact List.splitOn_intercalate sep h hne

theorem join_split (sep : Char) (t : Text) : join [sep] (split sep t) = t := by
  rw [split_eq_splitOn, join, List.intercalate_splitOn]

theorem length_split (sep : Char) (t : Text) : (split sep t).length = t.count sep + 1 := by
  induction t with
  | nil => rfl
  | cons c t ih =>
      rw [split, splitWhere]
      by_cases hc : c = sep
      · rw [if_pos (by simp [hc]), List.length_cons, ← split, ih, hc, List.count_cons_self]
      · rw [if_neg (by simpa using hc), List.count_cons_of_ne hc, ← ih, split]
        cases hsplit : splitWhere (· == sep) t with
        | nil => simp [split, hsplit] at ih
        | cons piece pieces => rfl

theorem join_cons (sep piece : Text) (pieces : List Text) :
    join sep (piece :: pieces) = piece ++ pieces.flatMap (sep ++ ·) := by
  induction pieces generalizing piece with
  | nil => simp [join]
  | cons next pieces ih =>
      rw [join, List.intercalate_cons_cons, ← join, ih, List.flatMap_cons, List.append_assoc,
        List.append_assoc]

theorem join_append_cons (sep : Text) (front : List Text) (piece : Text) (back : List Text) :
    join sep (front ++ piece :: back) = front.flatMap (· ++ sep) ++ join sep (piece :: back) := by
  induction front with
  | nil => rfl
  | cons first front ih =>
      have hmore : front ++ piece :: back ≠ [] := by simp
      rw [List.cons_append, join, List.intercalate_cons_of_ne_nil hmore, ← join, ih,
        List.flatMap_cons, ← List.append_assoc]

end MarkupIds.Text
