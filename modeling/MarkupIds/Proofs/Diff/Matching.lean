import MarkupIds.Diff.Matching
import Mathlib.Data.List.Chain
import Mathlib.Data.List.Infix

/-!
# Matched lines

Whatever stretches are found, they stand in both lists, one behind the other. The steps between them
lead from one list to the other: kept and changed stretches take turns, and none is empty.
-/

namespace MarkupIds.Diff

/-! ## One common stretch -/

/-- A stretch of `k` lines ends both lists. -/
def Shares (as bs : List Text) (k : ℕ) : Prop :=
  ∃ s : List Text, s.length = k ∧ s <:+ as ∧ s <:+ bs

theorem Shares.zero (as bs : List Text) : Shares as bs 0 :=
  ⟨[], rfl, List.nil_suffix, List.nil_suffix⟩

theorem Shares.concat {as bs : List Text} {k : ℕ} (h : Shares as bs k) (line : Text) :
    Shares (as ++ [line]) (bs ++ [line]) (k + 1) := by
  obtain ⟨s, rfl, ⟨u, rfl⟩, ⟨v, rfl⟩⟩ := h
  exact ⟨s ++ [line], by simp, ⟨u, by simp⟩, ⟨v, by simp⟩⟩

/-- A match is a stretch of both lists. -/
def Common (as bs : List Text) (m : Match) : Prop :=
  ∃ u u' s v v' : List Text, as = u ++ (s ++ v) ∧ bs = u' ++ (s ++ v') ∧
    m = ⟨u.length, u'.length, s.length⟩

theorem Shares.common {front back bs : List Text} {j k : ℕ} (hj : j ≤ bs.length)
    (h : Shares front (bs.take j) k) :
    Common (front ++ back) bs ⟨front.length - k, j - k, k⟩ := by
  obtain ⟨s, rfl, ⟨u, rfl⟩, ⟨u', hu'⟩⟩ := h
  refine ⟨u, u', s, back, bs.drop j, List.append_assoc u s back, ?_, ?_⟩
  · rw [← List.append_assoc, hu', List.take_append_drop]
  · have hlength := congrArg List.length hu'
    rw [List.length_append, List.length_take, min_eq_left hj] at hlength
    simp only [List.length_append, Match.mk.injEq, and_true]
    omega

theorem length_stretch (common : List Text) (line : Text) (before : ℕ) (ends : List ℕ)
    (bs : List Text) : (stretch common line before ends bs).length = bs.length := by
  induction bs generalizing before ends with
  | nil => rfl
  | cons b bs ih => rw [stretch, List.length_cons, List.length_cons, ih]

theorem stretch_shares (common : List Text) (line : Text) {front passed bs : List Text}
    {before : ℕ} {ends : List ℕ} (hbefore : Shares front passed before)
    (hends : ∀ j k, ends[j]? = some k → Shares front (passed ++ bs.take (j + 1)) k) :
    ∀ j k, (stretch common line before ends bs)[j]? = some k →
      Shares (front ++ [line]) (passed ++ bs.take (j + 1)) k := by
  induction bs generalizing passed before ends with
  | nil => simp [stretch]
  | cons b bs ih =>
      have hnext : Shares front (passed ++ [b]) (ends.head?.getD 0) := by
        cases ends with
        | nil => exact .zero _ _
        | cons k ends => simpa using hends 0 k rfl
      intro j k hk
      rw [stretch] at hk
      cases j with
      | zero =>
          obtain rfl := Option.some.inj hk
          split
          · rename_i hsame
            simp only [Bool.and_eq_true, beq_iff_eq] at hsame
            simpa [hsame.1] using hbefore.concat line
          · exact .zero _ _
      | succ j =>
          have hlater := ih hnext (fun j k hk => ?_) j k hk
          · simpa using hlater
          · simpa using hends (j + 1) k (by simpa using hk)

theorem better_cases {P : Match → Prop} {i j : ℕ} {best : Match} {ks : List ℕ} (hbest : P best)
    (h : ∀ l k, ks[l]? = some k → P ⟨i + 1 - k, j + l + 1 - k, k⟩) : P (better i best j ks) := by
  induction ks generalizing best j with
  | nil => exact hbest
  | cons k ks ih =>
      rw [better]
      refine ih ?_ ?_
      · split
        · exact h 0 k rfl
        · exact hbest
      · intro l k hk
        have hlater := h (l + 1) k hk
        rwa [← Nat.add_assoc, Nat.add_right_comm j l 1] at hlater

theorem longestFrom_common (common bs : List Text) {front back : List Text} {best : Match}
    {ends : List ℕ} (hbest : Common (front ++ back) bs best)
    (hends : ∀ j k, ends[j]? = some k → Shares front (bs.take (j + 1)) k) :
    Common (front ++ back) bs (longestFrom common bs best front.length ends back) := by
  induction back generalizing front best ends with
  | nil => exact hbest
  | cons line back ih =>
      have hstretch : ∀ j k, (stretch common line 0 ends bs)[j]? = some k →
          Shares (front ++ [line]) (bs.take (j + 1)) k :=
        stretch_shares common line (Shares.zero front []) hends
      rw [longestFrom]
      have hassoc : front ++ line :: back = front ++ [line] ++ back := by simp
      rw [hassoc] at hbest ⊢
      have hlength : front.length + 1 = (front ++ [line]).length := by simp
      rw [hlength]
      refine ih ?_ hstretch
      refine better_cases hbest ?_
      intro l k hk
      have hl : l + 1 ≤ bs.length := by
        have := (List.getElem?_eq_some_iff.mp hk).1
        rwa [length_stretch] at this
      have hcommon : Common (front ++ [line] ++ back) bs
          ⟨(front ++ [line]).length - k, l + 1 - k, k⟩ := (hstretch l k hk).common hl
      simpa [Nat.add_comm] using hcommon

theorem drop_stretch (u s v : List Text) : (u ++ (s ++ v)).drop (u.length + s.length) = v := by
  rw [← List.append_assoc, ← List.length_append, List.drop_left]

theorem exists_agreeing (as bs : List Text) :
    ∃ t as' bs', as = t ++ as' ∧ bs = t ++ bs' ∧ t.length = agreeing as bs := by
  fun_induction agreeing as bs with
  | case1 a as b bs hsame ih =>
      obtain ⟨t, as', bs', rfl, rfl, hlength⟩ := ih
      exact ⟨a :: t, as', bs', rfl, by simp [beq_iff_eq.mp hsame], by simp [hlength]⟩
  | case2 a as b bs => exact ⟨[], _, _, rfl, rfl, rfl⟩
  | case3 as bs => exact ⟨[], _, _, rfl, rfl, rfl⟩

/-- Running on over equal lines leaves a stretch of both lists. -/
theorem longest_common (common as bs : List Text) : Common as bs (longest common as bs) := by
  have hfound : Common as bs (longestFrom common bs ⟨0, 0, 0⟩ 0 [] as) :=
    @longestFrom_common common bs [] as ⟨0, 0, 0⟩ [] ⟨[], [], [], as, bs, rfl, rfl, rfl⟩ (by simp)
  obtain ⟨u, u', s, v, v', has, hbs, hm⟩ := hfound
  obtain ⟨t, w, w', hu, hu', ht⟩ := exists_agreeing u.reverse u'.reverse
  obtain ⟨r, x, x', hv, hv', hr⟩ := exists_agreeing v v'
  rw [List.reverse_eq_append_iff] at hu hu'
  refine ⟨w.reverse, w'.reverse, t.reverse ++ s ++ r, x, x', ?_, ?_, ?_⟩
  · rw [has, hu, hv]
    simp
  · rw [hbs, hu', hv']
    simp
  · have hback : agreeing (as.take u.length).reverse (bs.take u'.length).reverse = t.length := by
      rw [has, hbs, List.take_left, List.take_left, ht]
    have hon : agreeing (as.drop (u.length + s.length)) (bs.drop (u'.length + s.length)) =
        r.length := by
      rw [has, hbs, drop_stretch, drop_stretch, hr]
    simp only [longest, hm, hback, hon, Match.mk.injEq]
    rw [hu, hu']
    simp only [List.length_append, List.length_reverse]
    omega

/-! ## Common stretches in order -/

/-- Matches of the lines from `a` and from `b` on, one behind the other. -/
inductive Matched : ℕ → ℕ → List Text → List Text → List Match → Prop
  | done (a b : ℕ) (as bs : List Text) : Matched a b as bs []
  | next {a b : ℕ} (u u' : List Text) {s v v' : List Text} {ms : List Match} (hs : s ≠ [])
      (h : Matched (a + u.length + s.length) (b + u'.length + s.length) v v' ms) :
      Matched a b (u ++ (s ++ v)) (u' ++ (s ++ v')) (⟨a + u.length, b + u'.length, s.length⟩ :: ms)

theorem Matched.append {a b : ℕ} {u u' s v v' : List Text} {ms ms' : List Match}
    (hfront : Matched a b u u' ms) (hs : s ≠ [])
    (hback : Matched (a + u.length + s.length) (b + u'.length + s.length) v v' ms') :
    Matched a b (u ++ (s ++ v)) (u' ++ (s ++ v'))
      (ms ++ ⟨a + u.length, b + u'.length, s.length⟩ :: ms') := by
  induction hfront with
  | done a b u u' => exact .next u u' hs hback
  | @next a b w w' t x x' ms ht h ih =>
      have hlater := ih (by simpa [Nat.add_assoc] using hback)
      simpa [Nat.add_assoc] using Matched.next w w' ht hlater

theorem matchesFrom_matched (common : List Text) (fuel a b : ℕ) (as bs : List Text) :
    Matched a b as bs (matchesFrom common fuel a b as bs) := by
  induction fuel generalizing a b as bs with
  | zero => exact .done a b as bs
  | succ fuel ih =>
      obtain ⟨u, u', s, v, v', has, hbs, hm⟩ := longest_common common as bs
      rw [matchesFrom]
      simp only [hm]
      split
      · exact .done a b as bs
      · rename_i hsize
        have hs : s ≠ [] := by simpa using hsize
        rw [has, hbs, List.take_left, List.take_left, drop_stretch, drop_stretch]
        exact (ih a b u u').append hs (ih _ _ v v')

/-- One match does not end where the other starts. -/
def Match.Apart (m n : Match) : Prop :=
  ¬ (m.a + m.size = n.a ∧ m.b + m.size = n.b)

theorem Matched.joinTouching {a b : ℕ} {as bs : List Text} {ms : List Match}
    (h : Matched a b as bs ms) : Matched a b as bs (joinTouching ms) := by
  induction h with
  | done a b as bs => exact .done a b as bs
  | @next a b u u' s v v' ms hs h ih =>
      rw [Diff.joinTouching]
      cases hlater : Diff.joinTouching ms with
      | nil => exact .next u u' hs (hlater ▸ ih)
      | cons n ns =>
          rw [hlater] at ih
          dsimp only
          split
          · rename_i htouch
            cases ih with
            | @next _ _ w w' t _ _ _ ht h =>
                have hempty : w = [] ∧ w' = [] := by simpa using htouch
                obtain ⟨rfl, rfl⟩ := hempty
                have hjoined := Matched.next u u' (s := s ++ t) (by simp [hs])
                  (by simpa [Nat.add_assoc] using h)
                simpa using hjoined
          · exact .next u u' hs ih

theorem joinTouching_apart (ms : List Match) : (joinTouching ms).IsChain Match.Apart := by
  induction ms with
  | nil => exact .nil
  | cons m ms ih =>
      rw [joinTouching]
      cases hlater : joinTouching ms with
      | nil => exact .singleton m
      | cons n ns =>
          rw [hlater] at ih
          dsimp only
          split
          · rename_i htouch
            simp only [Bool.and_eq_true, beq_iff_eq] at htouch
            cases ns with
            | nil => exact .singleton _
            | cons k ns =>
                rw [List.isChain_cons_cons] at ih ⊢
                refine ⟨?_, ih.2⟩
                simpa [Match.Apart, ← htouch.1, ← htouch.2, Nat.add_assoc] using ih.1
          · rename_i hapart
            rw [List.isChain_cons_cons]
            exact ⟨by simpa [Match.Apart] using hapart, ih⟩

theorem matchings_matched (as bs : List Text) : Matched 0 0 as bs (matchings as bs) :=
  (matchesFrom_matched _ _ 0 0 as bs).joinTouching

/-! ## The way from one list to the other -/

/-- Lines that are kept, from lines `a` and `b` on. -/
def Step.keep (a b : ℕ) (s : List Text) : Step :=
  ⟨true, a, a + s.length, b, b + s.length⟩

/-- Lines `x` that give place to lines `y`, from lines `a` and `b` on. -/
def Step.change (a b : ℕ) (x y : List Text) : Step :=
  ⟨false, a, a + x.length, b, b + y.length⟩

@[simp]
theorem Step.kept_keep (a b : ℕ) (s : List Text) : (Step.keep a b s).kept = true := rfl

@[simp]
theorem Step.kept_change (a b : ℕ) (x y : List Text) : (Step.change a b x y).kept = false := rfl

/-- Steps that start with a change and lead from the lines from `a` on to those from `b` on. Each
change has lines, and so has what is kept between two of them. -/
inductive Turns : ℕ → ℕ → List Text → List Text → List Step → Prop
  | change {a b : ℕ} {x y : List Text} (h : x ≠ [] ∨ y ≠ []) (z : List Text) :
      Turns a b (x ++ z) (y ++ z) [.change a b x y]
  | keep {a b : ℕ} {x y : List Text} (h : x ≠ [] ∨ y ≠ []) (s z : List Text) :
      Turns a b (x ++ (s ++ z)) (y ++ (s ++ z))
        [.change a b x y, .keep (a + x.length) (b + y.length) s]
  | turn {a b : ℕ} {x y s as bs : List Text} {steps : List Step} (h : x ≠ [] ∨ y ≠ [])
      (hs : s ≠ [])
      (hlater : Turns (a + x.length + s.length) (b + y.length + s.length) as bs steps) :
      Turns a b (x ++ (s ++ as)) (y ++ (s ++ bs))
        (.change a b x y :: .keep (a + x.length) (b + y.length) s :: steps)

theorem Turns.ne_nil {a b : ℕ} {as bs : List Text} {steps : List Step}
    (h : Turns a b as bs steps) : steps ≠ [] := by
  cases h <;> simp

theorem Matched.turns {a b : ℕ} {as bs : List Text} {ms : List Match} (h : Matched a b as bs ms)
    (hapart : ms.IsChain Match.Apart) (hfirst : ∀ m ∈ ms.head?, ¬ (a = m.a ∧ b = m.b)) :
    as = [] ∧ bs = [] ∧ stepsFrom a b (a + as.length) (b + bs.length) ms = [] ∨
      Turns a b as bs (stepsFrom a b (a + as.length) (b + bs.length) ms) := by
  induction h with
  | done a b as bs =>
      rw [stepsFrom]
      by_cases hempty : as = [] ∧ bs = []
      · exact .inl ⟨hempty.1, hempty.2, by simp [hempty.1, hempty.2]⟩
      · have hlines : as ≠ [] ∨ bs ≠ [] := by tauto
        rw [if_pos (by simpa [List.length_pos_iff] using hlines)]
        refine .inr ?_
        simpa [Step.change] using Turns.change (a := a) (b := b) hlines []
  | @next a b u u' s v v' ms hs h ih =>
      have hgap : u ≠ [] ∨ u' ≠ [] := by
        have hstart := hfirst _ rfl
        simp only [Nat.left_eq_add, List.length_eq_zero_iff] at hstart
        tauto
      have hnext : ∀ m ∈ ms.head?,
          ¬ (a + u.length + s.length = m.a ∧ b + u'.length + s.length = m.b) :=
        fun m hm => (List.isChain_cons.mp hapart).1 m hm
      have hends : stepsFrom a b (a + (u ++ (s ++ v)).length) (b + (u' ++ (s ++ v')).length)
          (⟨a + u.length, b + u'.length, s.length⟩ :: ms) =
          .change a b u u' :: .keep (a + u.length) (b + u'.length) s ::
            stepsFrom (a + u.length + s.length) (b + u'.length + s.length)
              (a + u.length + s.length + v.length) (b + u'.length + s.length + v'.length) ms := by
        rw [stepsFrom, if_pos (by simpa [List.length_pos_iff] using hgap)]
        simp [Step.change, Step.keep, Nat.add_assoc]
      rw [hends]
      refine .inr ?_
      rcases ih (List.isChain_cons.mp hapart).2 hnext with ⟨rfl, rfl, hnil⟩ | hlater
      · rw [hnil]
        exact .keep hgap s []
      · exact .turn hgap hs hlater

/-- Unless the lists agree, the steps take turns, behind the lines that both start with. -/
theorem steps_turns {as bs : List Text} (hne : as ≠ bs) :
    Turns 0 0 as bs (steps as bs) ∨
      ∃ s as' bs' later, as = s ++ as' ∧ bs = s ++ bs' ∧ steps as bs = .keep 0 0 s :: later ∧
        Turns s.length s.length as' bs' later := by
  have hmatched := matchings_matched as bs
  have hapart : (matchings as bs).IsChain Match.Apart := joinTouching_apart _
  unfold steps
  by_cases hfirst : ∀ m ∈ (matchings as bs).head?, ¬ (0 = m.a ∧ 0 = m.b)
  · rcases hmatched.turns hapart hfirst with ⟨rfl, rfl, _⟩ | hturns
    · exact absurd rfl hne
    · simp only [Nat.zero_add] at hturns
      exact .inl hturns
  · push Not at hfirst
    obtain ⟨m, hm, ha, hb⟩ := hfirst
    generalize matchings as bs = ms at hmatched hapart hm ⊢
    cases hmatched with
    | done => simp at hm
    | @next _ _ u u' s v v' ms hs hlater =>
        obtain rfl := Option.some.inj hm
        have hempty : u = [] ∧ u' = [] := by
          simp only [Nat.zero_add] at ha hb
          exact ⟨List.eq_nil_of_length_eq_zero ha.symm, List.eq_nil_of_length_eq_zero hb.symm⟩
        obtain ⟨rfl, rfl⟩ := hempty
        have hrest := hlater.turns (List.isChain_cons.mp hapart).2 (List.isChain_cons.mp hapart).1
        simp only [List.length_nil, Nat.add_zero, Nat.zero_add, List.nil_append] at hrest hne
        refine .inr ⟨s, v, v', _, rfl, rfl, ?_, hrest.resolve_left ?_⟩
        · simp [stepsFrom, Step.keep]
        · rintro ⟨rfl, rfl, _⟩
          exact hne rfl

end MarkupIds.Diff
