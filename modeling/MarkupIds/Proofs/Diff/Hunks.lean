import MarkupIds.Proofs.Diff.Matching
import MarkupIds.Proofs.Diff.Reader

/-!
# Hunks

Steps that take turns, put into hunks with some kept lines around each change, are read as what they
say: whatever lines stand between two hunks are the same in both lists.
-/

namespace MarkupIds.Diff

open Reader (Reads)

/-! ## Cut steps -/

/-- The first `n` lines of a step. -/
def Step.front (n : ℕ) (s : Step) : Step :=
  { s with aEnd := min s.aEnd (s.a + n), bEnd := min s.bEnd (s.b + n) }

/-- The last `n` lines of a step. -/
def Step.back (n : ℕ) (s : Step) : Step :=
  { s with a := max s.a (s.aEnd - n), b := max s.b (s.bEnd - n) }

theorem Step.front_keep (n a b : ℕ) (s : List Text) :
    (Step.keep a b s).front n = .keep a b (s.take n) := by
  simp only [Step.front, Step.keep, List.length_take, Step.mk.injEq, true_and]
  omega

theorem Step.back_keep (n a b : ℕ) (s : List Text) :
    (Step.keep a b s).back n =
      .keep (a + (s.length - n)) (b + (s.length - n)) (s.drop (s.length - n)) := by
  simp only [Step.back, Step.keep, List.length_drop, Step.mk.injEq, true_and]
  omega

def trimFirst (n : ℕ) : List Step → List Step
  | [] => []
  | s :: steps => (if s.kept then s.back n else s) :: steps

def trimLast (n : ℕ) : List Step → List Step
  | [] => []
  | [s] => [if s.kept then s.front n else s]
  | s :: next :: steps => s :: trimLast n (next :: steps)

theorem trimLast_cons (n : ℕ) (s : Step) {steps : List Step} (h : steps ≠ []) :
    trimLast n (s :: steps) = s :: trimLast n steps := by
  obtain ⟨next, steps, rfl⟩ := List.exists_cons_of_ne_nil h
  rfl

theorem trimLast_concat (n : ℕ) (steps : List Step) (s : Step) :
    trimLast n (steps ++ [s]) = steps ++ [if s.kept then s.front n else s] := by
  induction steps with
  | nil => rfl
  | cons first steps ih => rw [List.cons_append, trimLast_cons n first (by simp), ih]; rfl

theorem trimEnds_eq (n : ℕ) (steps : List Step) :
    trimEnds n steps = trimLast n (trimFirst n steps) := by
  unfold trimEnds
  dsimp only
  split
  · rename_i s rest hreverse
    have hfirst : trimFirst n steps = (s :: rest).reverse := by
      rw [← hreverse, List.reverse_reverse]
      cases steps <;> rfl
    rw [hfirst, List.reverse_cons, List.reverse_cons, trimLast_concat]
    rfl
  · rename_i hreverse
    have hfirst : trimFirst n steps = [] := by
      rw [← List.reverse_nil, ← hreverse, List.reverse_reverse]
      cases steps <;> rfl
    rw [hfirst]
    rfl

/-! ## The lines of a step -/

theorem slice_of_drop {lines s rest : List Text} {a : ℕ} (h : lines.drop a = s ++ rest) :
    slice lines a (a + s.length) = s := by
  simp [slice, h]

theorem drop_of_drop {lines s rest : List Text} {a : ℕ} (h : lines.drop a = s ++ rest) :
    lines.drop (a + s.length) = rest := by
  rw [← List.drop_drop, h, List.drop_left]

theorem stepLines_keep {as rest : List Text} (bs : List Text) {a : ℕ} (b : ℕ) {s : List Text}
    (h : as.drop a = s ++ rest) : stepLines as bs (.keep a b s) = s.map (' ' :: ·) := by
  rw [stepLines, if_pos (Step.kept_keep a b s)]
  exact congrArg _ (slice_of_drop h)

theorem stepLines_change {as bs rest rest' x y : List Text} {a b : ℕ}
    (hold : as.drop a = x ++ rest) (hnew : bs.drop b = y ++ rest') :
    stepLines as bs (.change a b x y) = x.map ('-' :: ·) ++ y.map ('+' :: ·) := by
  rw [stepLines, if_neg (by simp)]
  exact congrArg₂ _ (congrArg _ (slice_of_drop hold)) (congrArg _ (slice_of_drop hnew))

/-- No line is removed at the start of these lines. -/
def NoRemoval (lines : List Text) : Prop :=
  ∀ next ∈ lines.head?, next.head? ≠ some '-'

theorem reads_keep {olds news a b : ℕ} (s : List Text) {rest lines new : List Text}
    (h : Reads ⟨olds, news, a + s.length, b + s.length, rest⟩ lines new) :
    Reads ⟨olds + s.length, news + s.length, a, b, s ++ rest⟩ (s.map (' ' :: ·) ++ lines)
      (s ++ new) := by
  induction s generalizing a b with
  | nil => exact h
  | cons line s ih =>
      refine .keep line (ih ?_)
      simpa [Nat.add_assoc, Nat.add_comm 1] using h

theorem reads_remove {olds news a b : ℕ} (x : List Text) {rest lines new : List Text}
    (h : Reads ⟨olds, news, a + x.length, b, rest⟩ lines new) :
    Reads ⟨olds + x.length, news, a, b, x ++ rest⟩ (x.map ('-' :: ·) ++ lines) new := by
  induction x generalizing a with
  | nil => exact h
  | cons line x ih =>
      refine .remove line (ih ?_)
      simpa [Nat.add_assoc, Nat.add_comm 1] using h

theorem reads_add {olds news a b : ℕ} (y : List Text) {rest lines new : List Text}
    (h : Reads ⟨olds, news, a, b + y.length, rest⟩ lines new) (hnext : NoRemoval lines) :
    Reads ⟨olds, news + y.length, a, b, rest⟩ (y.map ('+' :: ·) ++ lines) (y ++ new) := by
  induction y generalizing b with
  | nil => exact h
  | cons line y ih =>
      refine .add line (ih ?_) ?_
      · simpa [Nat.add_assoc, Nat.add_comm 1] using h
      · cases y with
        | nil => exact hnext
        | cons next y => simp

/-- A change and the lines kept behind it. -/
theorem reads_turn {olds news a b : ℕ} (x y s : List Text) {rest lines new : List Text}
    (h : Reads ⟨olds, news, a + x.length + s.length, b + y.length + s.length, rest⟩ lines new)
    (hnext : s = [] → NoRemoval lines) :
    Reads ⟨olds + s.length + x.length, news + s.length + y.length, a, b, x ++ (s ++ rest)⟩
      (x.map ('-' :: ·) ++ (y.map ('+' :: ·) ++ (s.map (' ' :: ·) ++ lines)))
      (y ++ (s ++ new)) := by
  refine reads_remove x (reads_add y (reads_keep s h) ?_)
  cases s with
  | nil => exact hnext rfl
  | cons line s => simp [NoRemoval]

/-- Between hunks no line is removed. -/
theorem noRemoval_of_reads {a b : ℕ} {rest lines new : List Text}
    (h : Reads ⟨0, 0, a, b, rest⟩ lines new) : NoRemoval lines := by
  cases h <;> simp [NoRemoval, hunkHead_head?]

/-! ## Open hunks -/

/-- Steps of a hunk that is still open. It starts at lines `a` and `b`, and leads from lines `x` to
lines `y`. -/
structure Pending (as bs : List Text) (a b : ℕ) (x y : List Text) (hunk : List Step) : Prop where
  first : ∀ s ∈ hunk.head?, s.a = a ∧ s.b = b
  empty : hunk = [] → x = [] ∧ y = []
  reads : ∀ {olds news : ℕ} {rest lines new : List Text},
    Reads ⟨olds, news, a + x.length, b + y.length, rest⟩ lines new →
      Reads ⟨olds + x.length, news + y.length, a, b, x ++ rest⟩
        (hunk.flatMap (stepLines as bs) ++ lines) (y ++ new)

theorem Pending.nil (as bs : List Text) (a b : ℕ) : Pending as bs a b [] [] [] :=
  ⟨by simp, by simp, fun h => h⟩

theorem Pending.keep {as rest : List Text} (bs : List Text) {a : ℕ} (b : ℕ) {s : List Text}
    (h : as.drop a = s ++ rest) : Pending as bs a b s s [.keep a b s] := by
  refine ⟨by simp [Step.keep], by simp, fun hlater => ?_⟩
  simpa [stepLines_keep bs b h] using reads_keep s hlater

section Turn

variable {as bs x y x' y' s old new : List Text} {a b : ℕ} {hunk : List Step}

/-- A change and the lines kept behind it, as steps. -/
def turnSteps (a b : ℕ) (x y s : List Text) : List Step :=
  [.change a b x y, .keep (a + x.length) (b + y.length) s]

theorem flatMap_turnSteps (hold : as.drop a = x ++ (s ++ old))
    (hnew : bs.drop b = y ++ (s ++ new)) :
    (turnSteps a b x y s).flatMap (stepLines as bs) =
      x.map ('-' :: ·) ++ (y.map ('+' :: ·) ++ s.map (' ' :: ·)) := by
  simp [turnSteps, stepLines_change hold hnew, stepLines_keep bs _ (drop_of_drop hold)]

theorem Pending.exists_first (h : Pending as bs a b x y hunk) (x' y' s : List Text) :
    ∃ first, (hunk ++ turnSteps (a + x.length) (b + y.length) x' y' s).head? = some first ∧
      first.a = a ∧ first.b = b := by
  cases hunk with
  | nil =>
      obtain ⟨rfl, rfl⟩ := h.empty rfl
      exact ⟨_, rfl, rfl, rfl⟩
  | cons first hunk => exact ⟨first, rfl, h.first first rfl⟩

/-- The lines of a turn behind those of an open hunk. -/
theorem Pending.reads_turn (h : Pending as bs a b x y hunk)
    (hold : as.drop (a + x.length) = x' ++ (s ++ old))
    (hnew : bs.drop (b + y.length) = y' ++ (s ++ new)) {olds news : ℕ}
    {rest lines later : List Text}
    (hlater : Reads ⟨olds, news, a + x.length + x'.length + s.length,
      b + y.length + y'.length + s.length, rest⟩ lines later)
    (hnext : s = [] → NoRemoval lines) :
    Reads ⟨olds + s.length + x'.length + x.length, news + s.length + y'.length + y.length, a, b,
        x ++ (x' ++ (s ++ rest))⟩
      ((hunk ++ turnSteps (a + x.length) (b + y.length) x' y' s).flatMap (stepLines as bs) ++ lines)
      (y ++ (y' ++ (s ++ later))) := by
  have hall := h.reads (Diff.reads_turn x' y' s hlater hnext)
  rw [List.flatMap_append, flatMap_turnSteps hold hnew]
  simpa using hall

theorem Pending.turn (h : Pending as bs a b x y hunk) (hs : s ≠ [])
    (hold : as.drop (a + x.length) = x' ++ (s ++ old))
    (hnew : bs.drop (b + y.length) = y' ++ (s ++ new)) :
    Pending as bs a b (x ++ (x' ++ s)) (y ++ (y' ++ s))
      (hunk ++ turnSteps (a + x.length) (b + y.length) x' y' s) := by
  refine ⟨?_, by simp [turnSteps], ?_⟩
  · obtain ⟨first, hfirst, hstart⟩ := h.exists_first x' y' s
    simpa [hfirst] using hstart
  · intro olds news rest lines later hlater
    simp only [List.length_append, ← Nat.add_assoc] at hlater
    have hall := h.reads_turn hold hnew hlater (fun hnil => absurd hnil hs)
    have holds : olds + (x ++ (x' ++ s)).length = olds + s.length + x'.length + x.length := by
      simp only [List.length_append]
      omega
    have hnews : news + (y ++ (y' ++ s)).length = news + s.length + y'.length + y.length := by
      simp only [List.length_append]
      omega
    rw [holds, hnews]
    simpa using hall

/-- A hunk that ends with a turn is read as what it says, behind lines that are skipped. -/
theorem Pending.close {p q : ℕ} {lines : List Text} (h : Pending as bs a b x y hunk)
    (hsome : x' ≠ [] ∨ y' ≠ [])
    (hold : as.drop (a + x.length) = x' ++ (s ++ old))
    (hnew : bs.drop (b + y.length) = y' ++ (s ++ new)) (skipped : List Text)
    (hp : p + skipped.length = a) (hq : q + skipped.length = b)
    (hlater : Reads ⟨0, 0, a + x.length + x'.length + s.length,
      b + y.length + y'.length + s.length, old⟩ lines new) :
    Reads ⟨0, 0, p, q, skipped ++ (x ++ (x' ++ (s ++ old)))⟩
      (hunkLines as bs (hunk ++ turnSteps (a + x.length) (b + y.length) x' y' s) ++ lines)
      (skipped ++ (y ++ (y' ++ (s ++ new)))) := by
  obtain ⟨first, hfirst, ha, hb⟩ := h.exists_first x' y' s
  have hbody := h.reads_turn hold hnew hlater (fun _ => noRemoval_of_reads hlater)
  have hlast : (hunk ++ turnSteps (a + x.length) (b + y.length) x' y' s).getLast? =
      some (.keep (a + x.length + x'.length) (b + y.length + y'.length) s) := by
    simp [turnSteps]
  have holds : a + x.length + x'.length + s.length = a + (0 + s.length + x'.length + x.length) := by
    omega
  have hnews : b + y.length + y'.length + s.length = b + (0 + s.length + y'.length + y.length) := by
    omega
  have hlines : hunkLines as bs (hunk ++ turnSteps (a + x.length) (b + y.length) x' y' s) =
      hunkHead a (0 + s.length + x'.length + x.length) b (0 + s.length + y'.length + y.length) ::
        (hunk ++ turnSteps (a + x.length) (b + y.length) x' y' s).flatMap (stepLines as bs) := by
    rw [hunkLines, hfirst, hlast]
    simp only [Step.keep, ha, hb, holds, hnews]
    rfl
  rw [hlines, List.cons_append, ← hp, ← hq]
  refine .head skipped ?_ ?_
  · rw [← List.length_pos_iff, ← List.length_pos_iff] at hsome
    omega
  · rw [hp, hq]
    exact hbody

end Turn

/-! ## All hunks -/

theorem hunksFrom_keep {n : ℕ} (hunk : List Step) (a b : ℕ) {s : List Text}
    (h : s.length ≤ 2 * n) (steps : List Step) :
    hunksFrom n hunk (.keep a b s :: steps) = hunksFrom n (hunk ++ [.keep a b s]) steps := by
  rw [hunksFrom, if_neg (by simpa [Step.keep] using h)]

theorem hunksFrom_turn {n : ℕ} (hunk : List Step) (a b : ℕ) (x y : List Text) {s : List Text}
    (h : s.length ≤ 2 * n) (steps : List Step) :
    hunksFrom n hunk (.change a b x y :: .keep (a + x.length) (b + y.length) s :: steps) =
      hunksFrom n (hunk ++ turnSteps a b x y s) steps := by
  rw [hunksFrom, if_neg (by simp), hunksFrom_keep _ _ _ h, List.append_assoc]
  rfl

/-- Many kept lines end one hunk and start another. -/
theorem hunksFrom_turn_long {n : ℕ} (hunk : List Step) (a b : ℕ) (x y : List Text)
    {s : List Text} (h : 2 * n < s.length) (steps : List Step) :
    hunksFrom n hunk (.change a b x y :: .keep (a + x.length) (b + y.length) s :: steps) =
      (hunk ++ turnSteps a b x y (s.take n)) ::
        hunksFrom n [(Step.keep (a + x.length) (b + y.length) s).back n] steps := by
  rw [hunksFrom, if_neg (by simp), hunksFrom, if_pos (by simpa [Step.keep] using h),
    List.append_assoc, turnSteps, ← Step.front_keep]
  rfl

theorem hunksFrom_nil (n : ℕ) (hunk : List Step) (a b : ℕ) (x y : List Text)
    (later : List Step) :
    hunksFrom n (hunk ++ .change a b x y :: later) [] = [hunk ++ .change a b x y :: later] := by
  rw [hunksFrom, if_neg (by simp)]

/-- A change at the end of a hunk is a turn with no lines kept. -/
theorem hunkLines_change (as bs : List Text) (hunk : List Step) (a b : ℕ) (x y : List Text) :
    hunkLines as bs (hunk ++ [.change a b x y]) =
      hunkLines as bs (hunk ++ turnSteps a b x y []) := by
  have hfirst : (hunk ++ [Step.change a b x y]).head? = (hunk ++ turnSteps a b x y []).head? := by
    cases hunk <;> rfl
  rw [hunkLines, hunkLines, ← hfirst]
  simp [turnSteps, Step.change, Step.keep, stepLines, slice]

theorem exists_split {n : ℕ} {s : List Text} (h : 2 * n < s.length) :
    ∃ front middle back, s = front ++ (middle ++ back) ∧ front.length = n ∧ back.length = n := by
  refine ⟨s.take n, (s.drop n).take (s.length - 2 * n), (s.drop n).drop (s.length - 2 * n), ?_,
    ?_, ?_⟩
  · simp
  · rw [List.length_take]
    omega
  · rw [List.length_drop, List.length_drop]
    omega

theorem Step.back_keep_append (a b : ℕ) (front middle : List Text) {n : ℕ} {back : List Text}
    (h : back.length = n) :
    (Step.keep a b (front ++ (middle ++ back))).back n =
      .keep (a + front.length + middle.length) (b + front.length + middle.length) back := by
  have hlength : (front ++ (middle ++ back)).length - n = (front ++ middle).length := by
    simp only [List.length_append]
    omega
  rw [Step.back_keep, hlength, ← List.append_assoc, List.drop_left, List.length_append,
    Nat.add_assoc, Nat.add_assoc]

/-- Steps that take turns are read as what they say, from an open hunk on. -/
theorem Turns.reads {n a b : ℕ} {as bs old new : List Text} {steps : List Step}
    (h : Turns a b old new steps) (hold : as.drop a = old) (hnew : bs.drop b = new)
    {p q i j : ℕ} {x y : List Text} {hunk : List Step} (hpending : Pending as bs i j x y hunk)
    (ha : i + x.length = a) (hb : j + y.length = b) (skipped : List Text)
    (hp : p + skipped.length = i) (hq : q + skipped.length = j) :
    Reads ⟨0, 0, p, q, skipped ++ (x ++ old)⟩
      ((hunksFrom n hunk (trimLast n steps)).flatMap (hunkLines as bs))
      (skipped ++ (y ++ new)) := by
  induction h generalizing p q i j x y hunk skipped with
  | @change a b x' y' hsome z =>
      subst ha hb
      rw [trimLast, if_neg (by simp), hunksFrom, if_neg (by simp), hunksFrom_nil,
        List.flatMap_singleton, hunkLines_change, ← List.append_nil (hunkLines ..)]
      exact hpending.close (s := []) hsome hold hnew skipped hp hq (.done _ _ z)
  | @keep a b x' y' hsome s z =>
      subst ha hb
      have hfew : (s.take n).length ≤ 2 * n := by
        rw [List.length_take]
        omega
      rw [trimLast, trimLast, if_pos (Step.kept_keep ..), Step.front_keep,
        hunksFrom_turn _ _ _ _ _ hfew, turnSteps, hunksFrom_nil, ← turnSteps,
        List.flatMap_singleton, ← List.append_nil (hunkLines ..)]
      have hcut : s ++ z = s.take n ++ (s.drop n ++ z) := by
        rw [← List.append_assoc, List.take_append_drop]
      rw [hcut] at hold hnew ⊢
      exact hpending.close hsome hold hnew skipped hp hq (.done _ _ _)
  | @turn a b x' y' s old new steps hsome hs hlater ih =>
      subst ha hb
      have hold' := drop_of_drop hold
      have hnew' := drop_of_drop hnew
      rw [trimLast_cons n _ (by simp), trimLast_cons n _ hlater.ne_nil]
      by_cases hlong : 2 * n < s.length
      · -- The kept lines are the end of this hunk, lines between hunks, and the start of the next.
        rw [hunksFrom_turn_long _ _ _ _ _ hlong, List.flatMap_cons]
        obtain ⟨front, middle, back, rfl, rfl, hback⟩ := exists_split hlong
        have hend := drop_of_drop hold'
        rw [Step.back_keep_append _ _ _ _ hback, List.take_left]
        simp only [List.append_assoc] at hold hnew hold' ⊢
        refine hpending.close hsome hold hnew skipped hp hq ?_
        refine ih hend (drop_of_drop hnew') (.keep bs _ (drop_of_drop (drop_of_drop hold'))) ?_ ?_
          middle rfl rfl
        · simp [Nat.add_assoc]
        · simp [Nat.add_assoc]
      · rw [hunksFrom_turn _ _ _ _ _ (Nat.le_of_not_lt hlong)]
        have hjoined := ih (drop_of_drop hold') (drop_of_drop hnew') (hpending.turn hs hold hnew)
          (by simp [Nat.add_assoc]) (by simp [Nat.add_assoc]) skipped hp hq
        simpa using hjoined

theorem Turns.trimFirst_eq {a b : ℕ} {as bs : List Text} {steps : List Step}
    (h : Turns a b as bs steps) (n : ℕ) : trimFirst n steps = steps := by
  cases h <;> simp [trimFirst]

/-- The hunks between two lists lead from one to the other. -/
theorem hunks_reads (n : ℕ) {as bs : List Text} (hne : as ≠ bs) :
    Reads ⟨0, 0, 0, 0, as⟩ ((hunks n (steps as bs)).flatMap (hunkLines as bs)) bs := by
  rw [hunks, trimEnds_eq]
  rcases steps_turns hne with hturns | ⟨s, old, new, later, has, hbs, hsteps, hturns⟩
  · rw [hturns.trimFirst_eq]
    exact hturns.reads rfl rfl (.nil as bs 0 0) rfl rfl [] rfl rfl
  · have hfew : (s.drop (s.length - n)).length ≤ 2 * n := by
      rw [List.length_drop]
      omega
    have hcut (rest : List Text) :
        s ++ rest = s.take (s.length - n) ++ (s.drop (s.length - n) ++ rest) := by
      rw [← List.append_assoc, List.take_append_drop]
    have hskipped : 0 + (s.take (s.length - n)).length = 0 + (s.length - n) := by
      rw [List.length_take, Nat.min_eq_left (Nat.sub_le _ _)]
    have hstart : as.drop (0 + (s.length - n)) = s.drop (s.length - n) ++ old := by
      rw [has, hcut, ← hskipped, Nat.zero_add, List.drop_left]
    have hend : 0 + (s.length - n) + (s.drop (s.length - n)).length = s.length := by
      rw [List.length_drop]
      omega
    rw [hsteps, trimFirst, if_pos (Step.kept_keep ..), Step.back_keep,
      trimLast_cons n _ hturns.ne_nil, hunksFrom_keep _ _ _ hfew, List.nil_append]
    have hreads := hturns.reads (n := n) (by simp [has]) (by simp [hbs]) (.keep bs _ hstart)
      hend hend (s.take (s.length - n)) hskipped hskipped
    rwa [← hcut, ← hcut, ← has, ← hbs] at hreads

end MarkupIds.Diff
