import MarkupIds.Proofs.Script.Removal
import MarkupIds.Proofs.Splice.Forward

/-!
# What a revision reports

Every edit of a script meets its element or is missed. One that meets it is made, fails with a
reason, or reaches into another one and is left out. The report names the edits of the last kind
among those that are applied and warns of them as well.
-/

namespace MarkupIds.Script

/-! ## Edits that meet their elements -/

/-- An edit that has met an element at a place, and what the opening tag makes of it. -/
structure Attempt where
  edit : Edit
  spot : Position
  outcome : Except EditError Splice

namespace Attempt

def splice? (a : Attempt) : Option Splice :=
  a.outcome.toOption

/-- The warning that the edit cannot be made. -/
def failure (reason : EditError) (spot : Position) : Diagnostic :=
  { message := "Failed to apply transformation: ".toList ++ reason.message
    position := some spot }

def failure? (a : Attempt) : Option Diagnostic :=
  match a.outcome with
  | .ok _ => none
  | .error reason => some (failure reason a.spot)

section

variable (e : Edit) (spot : Position) (s : Splice) (reason : EditError)

@[simp] theorem splice?_ok : splice? ⟨e, spot, .ok s⟩ = some s := rfl

@[simp] theorem splice?_error : splice? ⟨e, spot, .error reason⟩ = none := rfl

@[simp] theorem failure?_ok : failure? ⟨e, spot, .ok s⟩ = none := rfl

@[simp] theorem failure?_error :
    failure? ⟨e, spot, .error reason⟩ = some (failure reason spot) := rfl

end

theorem outcome_of_splice? {a : Attempt} {s : Splice} (h : a.splice? = some s) :
    a.outcome = .ok s := by
  obtain ⟨e, spot, outcome⟩ := a
  cases outcome with
  | ok s' => exact congrArg Except.ok (Option.some.inj h)
  | error reason => cases h

/-- The element is one of the nodes. -/
def MetIn (source : Text) (nodes : List Node) (a : Attempt) : Prop :=
  ∃ n ∈ nodes, ∃ opening, n.opening? = some opening ∧ a.spot = .ofOffset source n.start ∧
    sameSpot a.spot a.edit.position = true ∧ a.outcome = spliceFor source opening a.edit

theorem MetIn.mono {source : Text} {nodes more : List Node} {a : Attempt}
    (h : a.MetIn source nodes) (hsub : nodes ⊆ more) : a.MetIn source more := by
  obtain ⟨n, hn, hmet⟩ := h
  exact ⟨n, hsub hn, hmet⟩

end Attempt

/-- The attempts are what has come of the edits at the nodes visited so far. -/
structure Progress.Logs (source : Text) (edits : List Edit) (nodes : List Node) (p : Progress)
    (log : List Attempt) : Prop where
  complete : (log.map (·.edit) ++ p.pending).Perm edits
  splices : p.splices = log.filterMap (·.splice?)
  applied : p.applied = (log.filter (·.splice?.isSome)).map (·.edit)
  diagnostics : p.diagnostics = log.filterMap (·.failure?)
  met : ∀ a ∈ log, a.MetIn source nodes
  missed : ∀ e ∈ p.pending, ∀ n ∈ nodes, n.opening?.isSome →
    sameSpot (.ofOffset source n.start) e.position = false

section Walks

variable {source : Text} {edits : List Edit} {nodes : List Node} {p : Progress}
  {log : List Attempt}

/-- A progress with some more attempts. -/
def Progress.after (p : Progress) (more : List Attempt) : Progress :=
  { p with
    splices := p.splices ++ more.filterMap (·.splice?)
    applied := p.applied ++ (more.filter (·.splice?.isSome)).map (·.edit)
    diagnostics := p.diagnostics ++ more.filterMap (·.failure?) }

theorem Progress.after_append (p : Progress) (more rest : List Attempt) :
    (p.after more).after rest = p.after (more ++ rest) := by
  simp only [Progress.after, List.filterMap_append, List.filter_append, List.map_append,
    List.append_assoc]

theorem Progress.edit_eq_after (source : Text) (opening : Node) (spot : Position) (p : Progress)
    (e : Edit) :
    p.edit source opening spot e = p.after [⟨e, spot, spliceFor source opening e⟩] := by
  unfold Progress.edit
  split
  · rename_i s hs
    simp [hs, Progress.after, List.filter_cons]
  · rename_i reason hs
    simp only [hs, Progress.after, List.filterMap_cons, Attempt.splice?_error,
      Attempt.failure?_error, List.filterMap_nil, List.filter_cons, List.filter_nil,
      Option.isSome_none, Bool.false_eq_true, if_false, List.map_nil, List.append_nil]
    rfl

/-- The edits of one place are attempted in turn. -/
theorem Progress.foldl_edit (source : Text) (opening : Node) (spot : Position) (here : List Edit)
    (p : Progress) :
    here.foldl (Progress.edit source opening spot) p =
      p.after (here.map fun e => ⟨e, spot, spliceFor source opening e⟩) := by
  induction here generalizing p with
  | nil => simp [Progress.after]
  | cons e here ih =>
      rw [List.foldl_cons, ih, Progress.edit_eq_after, Progress.after_append]
      rfl

theorem grouped_perm (fuel : ℕ) (edits : List Edit) : (grouped fuel edits).Perm edits := by
  induction fuel generalizing edits with
  | zero => exact .refl _
  | succ fuel ih =>
      cases edits with
      | nil => exact .refl _
      | cons e edits =>
          rw [grouped, List.partition_eq_filter_filter]
          exact ((((ih _).append_left _).trans (List.filter_append_perm _ edits)).cons e)

theorem Progress.Logs.start (source : Text) (edits : List Edit) :
    Progress.Logs source edits [] { pending := grouped edits.length edits } [] :=
  ⟨grouped_perm _ edits, rfl, rfl, rfl, by simp, by simp⟩

/-- A node without edits of its place leaves the log as it is. -/
theorem Progress.Logs.pass (h : p.Logs source edits nodes log) {n : Node}
    (hother : ∀ e ∈ p.pending, n.opening?.isSome →
      sameSpot (.ofOffset source n.start) e.position = false) :
    p.Logs source edits (nodes ++ [n]) log := by
  refine { h with met := fun a ha => (h.met a ha).mono (List.subset_append_left nodes [n])
                  missed := fun e he m hm hsome => ?_ }
  rcases List.mem_append.mp hm with hm | hm
  · exact h.missed e he m hm hsome
  · obtain rfl := List.mem_singleton.mp hm
    exact hother e he hsome

/-- The edits of a node's place are attempted, and only those of other places go on waiting. -/
theorem Progress.Logs.attempt (h : p.Logs source edits nodes log) {n opening : Node}
    (hopening : n.opening? = some opening) :
    let here (e : Edit) := sameSpot (.ofOffset source n.start) e.position
    let more := (p.pending.filter here).map fun e =>
      (⟨e, .ofOffset source n.start, spliceFor source opening e⟩ : Attempt)
    ({ p with pending := p.pending.filter (not ∘ here) }.after more).Logs source edits
      (nodes ++ [n]) (log ++ more) := by
  intro here more
  have hmore : more.map (·.edit) = p.pending.filter here := by
    simp [more, Function.comp_def]
  refine ⟨?_, ?_, ?_, ?_, ?_, ?_⟩
  · rw [List.map_append, hmore, List.append_assoc]
    exact ((List.filter_append_perm here p.pending).append_left _).trans h.complete
  · rw [Progress.after, List.filterMap_append, ← h.splices]
  · rw [Progress.after, List.filter_append, List.map_append, ← h.applied]
  · rw [Progress.after, List.filterMap_append, ← h.diagnostics]
  · intro a ha
    rcases List.mem_append.mp ha with ha | ha
    · exact (h.met a ha).mono (List.subset_append_left nodes [n])
    · obtain ⟨e, he, rfl⟩ := List.mem_map.mp ha
      exact ⟨n, by simp, opening, hopening, rfl, (List.mem_filter.mp he).2, rfl⟩
  · intro e he m hm hsome
    obtain ⟨he, helsewhere⟩ := List.mem_filter.mp he
    rcases List.mem_append.mp hm with hm | hm
    · exact h.missed e he m hm hsome
    · obtain rfl := List.mem_singleton.mp hm
      simpa [here] using helsewhere

/-- A visit attempts the edits that wait for its element. -/
theorem Progress.Logs.visit (h : p.Logs source edits nodes log) (n : Node) :
    ∃ log, (p.visit source n).Logs source edits (nodes ++ [n]) log := by
  unfold Progress.visit
  split
  · rename_i hempty
    have hnone : p.pending = [] := by simpa using hempty
    exact ⟨log, h.pass (by simp [hnone])⟩
  · split
    · rename_i hopening
      exact ⟨log, h.pass (by simp [hopening])⟩
    · rename_i opening hopening
      simp only [Progress.foldl_edit, List.partition_eq_filter_filter]
      exact ⟨_, h.attempt hopening⟩

theorem Progress.Logs.visits (h : p.Logs source edits nodes log) (more : List Node) :
    ∃ log, (more.foldl (Progress.visit source) p).Logs source edits (nodes ++ more) log := by
  induction more generalizing nodes p log with
  | nil =>
      rw [List.append_nil]
      exact ⟨log, h⟩
  | cons n more ih =>
      obtain ⟨log, hvisit⟩ := h.visit n
      rw [List.append_cons]
      exact ih hvisit

end Walks

/-! ## The ledger of a revision -/

/-- What has come of an edit. -/
inductive Fate where
  | made (s : Splice)
  /-- Left out, since it reaches into an edit that is made. -/
  | overlapped (s : Splice)
  | failed (reason : EditError) (spot : Position)
  /-- No element stands at the place of the edit. -/
  | missed

namespace Fate

def made? : Fate → Option Splice
  | .made s => some s
  | _ => none

/-- The splice of an edit that has one, made or not. -/
def splice? : Fate → Option Splice
  | .made s | .overlapped s => some s
  | _ => none

/-- The warning that an edit with this fate gets. -/
def warning? (source : Text) (e : Edit) : Fate → Option Diagnostic
  | .made _ => none
  | .overlapped s => some (overlapping source s.start)
  | .failed reason spot => some (Attempt.failure reason spot)
  | .missed => some (unmatched e)

section

variable (source : Text) (e : Edit) (s : Splice) (reason : EditError) (spot : Position)

@[simp] theorem made?_made : (made s).made? = some s := rfl

@[simp] theorem made?_overlapped : (overlapped s).made? = none := rfl

@[simp] theorem made?_failed : (failed reason spot).made? = none := rfl

@[simp] theorem made?_missed : missed.made? = none := rfl

@[simp] theorem splice?_made : (made s).splice? = some s := rfl

@[simp] theorem splice?_overlapped : (overlapped s).splice? = some s := rfl

@[simp] theorem splice?_failed : (failed reason spot).splice? = none := rfl

@[simp] theorem splice?_missed : missed.splice? = none := rfl

@[simp] theorem warning?_made : (made s).warning? source e = none := rfl

@[simp] theorem warning?_overlapped :
    (overlapped s).warning? source e = some (overlapping source s.start) := rfl

@[simp] theorem warning?_failed :
    (failed reason spot).warning? source e = some (Attempt.failure reason spot) := rfl

@[simp] theorem warning?_missed : missed.warning? source e = some (unmatched e) := rfl

end

/-- The elements of a script bear the fate out. -/
def Holds (source : Text) (nodes : List Node) (e : Edit) : Fate → Prop
  | .made s | .overlapped s =>
    ∃ n ∈ nodes, ∃ opening, n.opening? = some opening ∧
      sameSpot (.ofOffset source n.start) e.position = true ∧ spliceFor source opening e = .ok s
  | .failed reason spot =>
    ∃ n ∈ nodes, ∃ opening, n.opening? = some opening ∧ spot = .ofOffset source n.start ∧
      sameSpot spot e.position = true ∧ spliceFor source opening e = .error reason
  | .missed => ∀ n ∈ nodes, sameSpot (.ofOffset source n.start) e.position = false

end Fate

/-- The fates of attempts if some of their splices, numbered from `i` on, are kept. -/
def judge (kept : List (Splice × ℕ)) : ℕ → List Attempt → List (Edit × Fate)
  | _, [] => []
  | i, ⟨e, _, .ok s⟩ :: log =>
    (e, if (s, i) ∈ kept then .made s else .overlapped s) :: judge kept (i + 1) log
  | i, ⟨e, spot, .error reason⟩ :: log => (e, .failed reason spot) :: judge kept i log

section Judgements

variable (source : Text) (kept : List (Splice × ℕ)) (i : ℕ) (log : List Attempt)

theorem map_judge : (judge kept i log).map (·.1) = log.map (·.edit) := by
  fun_induction judge kept i log with
  | case1 => rfl
  | case2 i e spot s log ih => rw [List.map_cons, List.map_cons, ih]
  | case3 i e spot reason log ih => rw [List.map_cons, List.map_cons, ih]

theorem applied_judge :
    ((judge kept i log).filter (·.2.splice?.isSome)).map (·.1) =
      (log.filter (·.splice?.isSome)).map (·.edit) := by
  fun_induction judge kept i log with
  | case1 => rfl
  | case2 i e spot s log ih =>
      by_cases hkept : (s, i) ∈ kept <;> simp [List.filter_cons, hkept, ih]
  | case3 i e spot reason log ih => simp [ih]

theorem made_judge :
    (judge kept i log).filterMap (·.2.made?) =
      (((log.filterMap (·.splice?)).zipIdx i).filter (· ∈ kept)).map (·.1) := by
  fun_induction judge kept i log with
  | case1 => rfl
  | case2 i e spot s log ih =>
      by_cases hkept : (s, i) ∈ kept <;>
        simp [List.filterMap_cons, List.zipIdx_cons, hkept, ih]
  | case3 i e spot reason log ih => simp [List.filterMap_cons, ih]

/-- Attempts that fail get their warning, and those with a splice that is not kept. -/
theorem warnings_judge :
    ((judge kept i log).filterMap fun x => x.2.warning? source x.1).Perm
      (log.filterMap (·.failure?) ++
        (((log.filterMap (·.splice?)).zipIdx i).filter (· ∉ kept)).map
          (overlapping source ·.1.start)) := by
  fun_induction judge kept i log with
  | case1 => exact .refl _
  | case2 i e spot s log ih =>
      by_cases hkept : (s, i) ∈ kept
      · simpa [List.filterMap_cons, List.zipIdx_cons, hkept] using ih
      · simpa [List.filterMap_cons, List.zipIdx_cons, hkept] using
          (ih.cons _).trans List.perm_middle.symm
  | case3 i e spot reason log ih =>
      simpa [List.filterMap_cons] using ih.cons (Attempt.failure reason spot)

variable {source kept i log} {nodes : List Node}

theorem holds_judge (hmet : ∀ a ∈ log, a.MetIn source nodes) :
    ∀ x ∈ judge kept i log, x.2.Holds source nodes x.1 := by
  fun_induction judge kept i log with
  | case1 => simp
  | case2 i e spot s log ih =>
      obtain ⟨⟨n, hn, opening, hopening, hspot, hhere, hsplice⟩, hlater⟩ :=
        List.forall_mem_cons.mp hmet
      refine List.forall_mem_cons.mpr ⟨?_, ih hlater⟩
      have hholds : ∃ n ∈ nodes, ∃ opening, n.opening? = some opening ∧
          sameSpot (.ofOffset source n.start) e.position = true ∧
          spliceFor source opening e = .ok s :=
        ⟨n, hn, opening, hopening, hspot ▸ hhere, hsplice.symm⟩
      dsimp only
      split <;> exact hholds
  | case3 i e spot reason log ih =>
      obtain ⟨⟨n, hn, opening, hopening, hspot, hhere, hsplice⟩, hlater⟩ :=
        List.forall_mem_cons.mp hmet
      exact List.forall_mem_cons.mpr
        ⟨⟨n, hn, opening, hopening, hspot, hhere, hsplice.symm⟩, ih hlater⟩

/-- An attempt is left out only if its splice is not kept. -/
theorem exists_of_overlapped {e : Edit} {s : Splice}
    (h : (e, .overlapped s) ∈ judge kept i log) :
    ∃ k, (s, k) ∈ (log.filterMap (·.splice?)).zipIdx i ∧ (s, k) ∉ kept := by
  fun_induction judge kept i log with
  | case1 => cases h
  | case2 i e' spot s' log ih =>
      rw [List.filterMap_cons_some (Attempt.splice?_ok e' spot s'), List.zipIdx_cons]
      rcases List.mem_cons.mp h with h | h
      · by_cases hkept : (s', i) ∈ kept
        · rw [if_pos hkept] at h
          cases h
        · rw [if_neg hkept] at h
          cases h
          exact ⟨i, List.mem_cons_self .., hkept⟩
      · obtain ⟨k, hk, hout⟩ := ih h
        exact ⟨k, List.mem_cons_of_mem _ hk, hout⟩
  | case3 i e' spot reason log ih =>
      rw [List.filterMap_cons_none (Attempt.splice?_error e' spot reason)]
      rcases List.mem_cons.mp h with h | h
      · cases h
      · exact ih h

end Judgements

/-! ## Splices that are kept, by their numbers -/

section Kept

open Splice

variable {t : Text} {splices : List Splice}

theorem applyAll_eq_kept (hspans : ∀ s ∈ splices, s.start ≤ s.stop ∧ s.stop ≤ t.length) :
    applyAll t splices =
      (copyFrom t 0 (kept (inOrder splices)),
        (((inOrder splices).filter (· ∉ kept (inOrder splices))).map (·.1.start)).reverse) := by
  have hplaced : ∀ a ∈ inOrder splices, a.1.start ≤ a.1.stop ∧ a.1.stop ≤ t.length :=
    fun a ha => hspans a.1 (List.fst_mem_of_mem_zipIdx ((inOrder_perm splices).mem_iff.mp ha))
  have hrun := applyBelow_eq_copyFrom (inOrder splices) [] (by simpa using hplaced)
    (by simpa using inOrder_pairwise splices)
  have hstart : t.take (reach t (kept [])) ++ copyFrom t (reach t (kept [])) (kept []) = t := by
    simp [kept, reach, copyFrom]
  rw [← backward_eq_reverse, List.append_nil, hstart] at hrun
  exact hrun

theorem nodup_inOrder (splices : List Splice) : (inOrder splices).Nodup :=
  (inOrder_pairwise splices).imp fun hbefore heq => by
    subst heq
    exact hbefore.asymm hbefore

/-- The splices that are kept, in the order of the list. -/
theorem kept_perm_filter (splices : List Splice) :
    (kept (inOrder splices)).Perm (splices.zipIdx.filter (· ∈ kept (inOrder splices))) := by
  have hzip : splices.zipIdx.Nodup := (inOrder_perm splices).nodup_iff.mp (nodup_inOrder splices)
  have hkept := (nodup_inOrder splices).sublist (kept_sublist _)
  refine (List.perm_ext_iff_of_nodup hkept (hzip.filter _)).mpr fun a => ?_
  rw [List.mem_filter, decide_eq_true_iff]
  exact ⟨fun ha => ⟨(inOrder_perm splices).mem_iff.mp ((kept_sublist _).mem ha), ha⟩, And.right⟩

end Kept

/-! ## The report -/

/-- A ledger accounts for a revision: every edit has one entry with its fate, which the script
bears out. Edits with a splice are reported as applied, those that are not made get one warning
each, and the code is the source with the splices that are made. -/
structure Accounts (source : Text) (nodes : List Node) (edits : List Edit) (r : Revision)
    (ledger : List (Edit × Fate)) : Prop where
  complete : (ledger.map (·.1)).Perm edits
  holds : ∀ x ∈ ledger, x.2.Holds source nodes x.1
  applied : r.applied = (ledger.filter (·.2.splice?.isSome)).map (·.1)
  warned : r.diagnostics.Perm (ledger.filterMap fun x => x.2.warning? source x.1)
  written : ∃ kept : List (Splice × ℕ), r.code = Splice.copyFrom source 0 kept ∧
    (kept.map (·.1)).Perm (ledger.filterMap (·.2.made?)) ∧
    kept.Pairwise fun a b => a.1.stop ≤ b.1.start
  overlaps : ∀ e s, (e, .overlapped s) ∈ ledger →
    ∃ e' s', (e', .made s') ∈ ledger ∧ s.start ≤ s'.start ∧ s'.start < s.stop

theorem Progress.Logs.spans {parser : Parser} (hordered : parser.Ordered) {source path : Text}
    {tree : List Node} {edits : List Edit} {p : Progress} {log : List Attempt}
    (htree : parser.tree? source path = some tree)
    (h : p.Logs source edits (Node.elementsOf tree) log) :
    ∀ s ∈ p.splices, s.start ≤ s.stop ∧ s.stop ≤ source.length := by
  intro s hs
  rw [h.splices] at hs
  obtain ⟨a, ha, hsplice⟩ := List.mem_filterMap.mp hs
  obtain ⟨n, hn, opening, hopening, _, _, houtcome⟩ := h.met a ha
  obtain ⟨hnested, _, hinside⟩ := (hordered.tree_nested htree).of_mem_elementsOf hn
  obtain ⟨hopens, _, hlast⟩ := hnested.of_mem_children (List.mem_of_find?_eq_some hopening)
  rw [Attempt.outcome_of_splice? hsplice] at houtcome
  obtain ⟨_, hle, hstop⟩ := spliceFor_inside houtcome.symm hopens
  exact ⟨hle, (hstop.trans hlast).trans hinside⟩

section KeptJudgements

variable {splices : List Splice} {log : List Attempt}

theorem made_judge_perm (hsplices : splices = log.filterMap (·.splice?)) :
    ((judge (Splice.kept (Splice.inOrder splices)) 0 log).filterMap (·.2.made?)).Perm
      ((Splice.kept (Splice.inOrder splices)).map (·.1)) := by
  rw [made_judge, ← hsplices]
  exact ((kept_perm_filter splices).map (·.1)).symm

/-- A splice that is left out reaches beyond the start of one that is made. -/
theorem exists_made_of_overlapped (hsplices : splices = log.filterMap (·.splice?)) {e : Edit}
    {s : Splice}
    (hout : (e, .overlapped s) ∈ judge (Splice.kept (Splice.inOrder splices)) 0 log) :
    ∃ e' s', (e', .made s') ∈ judge (Splice.kept (Splice.inOrder splices)) 0 log ∧
      s.start ≤ s'.start ∧ s'.start < s.stop := by
  obtain ⟨k, hk, hnot⟩ := exists_of_overlapped hout
  rw [← hsplices] at hk
  have hin := (Splice.inOrder_perm splices).mem_iff.mpr hk
  obtain ⟨b, hb, hreach⟩ :=
    (Splice.not_mem_kept_iff (Splice.inOrder_pairwise splices) hin).mp hnot
  have hdone := (made_judge_perm hsplices).mem_iff.mpr
    (List.mem_map_of_mem (List.mem_of_find?_eq_some hb))
  obtain ⟨⟨e', fate⟩, hx, hfate⟩ := List.mem_filterMap.mp hdone
  have hbefore : Splice.Before (s, k) b := by simpa using List.find?_some hb
  refine ⟨e', b.1, ?_, hbefore.start_le, hreach⟩
  cases fate with
  | made s' =>
      obtain rfl : s' = b.1 := Option.some.inj hfate
      exact hx
  | _ => cases hfate

end KeptJudgements

/-- What a walk over all elements of a script has logged accounts for the revision. -/
theorem Progress.Logs.accounts {parser : Parser} (hordered : parser.Ordered)
    (hopens : parser.Opens) {source path : Text} {tree : List Node} {edits : List Edit}
    {p : Progress} {log : List Attempt} (htree : parser.tree? source path = some tree)
    (h : p.Logs source edits (Node.elementsOf tree) log) :
    let made := Splice.applyAll source p.splices
    ∃ ledger, Accounts source (Node.elementsOf tree) edits
      { code := made.1
        diagnostics := p.diagnostics ++ p.pending.map unmatched ++ made.2.map (overlapping source)
        applied := p.applied } ledger := by
  intro made
  have hmade : made = _ := applyAll_eq_kept (h.spans hordered htree)
  let kept := Splice.kept (Splice.inOrder p.splices)
  -- The splices go by their numbers: of two equal ones, one may be kept and one left out.
  refine ⟨judge kept 0 log ++ p.pending.map fun e => (e, .missed), ?_, ?_, ?_, ?_, ?_, ?_⟩
  · rw [List.map_append, map_judge, List.map_map]
    simpa [Function.comp_def] using h.complete
  · intro x hx
    rcases List.mem_append.mp hx with hx | hx
    · exact holds_judge h.met x hx
    · obtain ⟨e, he, rfl⟩ := List.mem_map.mp hx
      exact fun n hn => h.missed e he n hn (hopens.opening? htree n hn)
  · rw [List.filter_append, List.map_append, applied_judge, ← h.applied]
    simp [List.filter_map, Function.comp_def]
  · have hwarnings := warnings_judge source kept 0 log
    rw [← h.diagnostics, ← h.splices] at hwarnings
    have hskipped : (made.2.map (overlapping source)).Perm
        ((p.splices.zipIdx.filter (· ∉ kept)).map (overlapping source ·.1.start)) := by
      rw [hmade, List.map_reverse, List.map_map]
      exact (List.reverse_perm _).trans (((Splice.inOrder_perm p.splices).filter _).map _)
    have hunmatched : (p.pending.map fun e => (e, Fate.missed)).filterMap
        (fun x => x.2.warning? source x.1) = p.pending.map unmatched := by
      simp [List.filterMap_map, Function.comp_def]
    rw [List.filterMap_append, hunmatched, List.append_assoc]
    -- The report warns of missed edits before overlaps, the ledger lists them last.
    refine .trans ?_ (hwarnings.symm.append_right _)
    rw [List.append_assoc]
    exact (List.perm_append_comm.trans (hskipped.append_right _)).append_left _
  · refine ⟨kept, by rw [hmade], ?_, Splice.kept_pairwise (Splice.inOrder_pairwise _)⟩
    rw [List.filterMap_append]
    simpa [List.filterMap_map, Function.comp_def] using (made_judge_perm h.splices).symm
  · intro e s hout
    rcases List.mem_append.mp hout with hout | hout
    · obtain ⟨e', s', hmade, hreach⟩ := exists_made_of_overlapped h.splices hout
      exact ⟨e', s', List.mem_append_left _ hmade, hreach⟩
    · simp at hout

/-- The message of an edit that is left out is that of no other warning. -/
theorem Fate.message_eq_iff {source : Text} {e : Edit} {fate : Fate} {d : Diagnostic}
    (h : fate.warning? source e = some d) :
    d.message = "Overlapping edit skipped".toList ↔ ∃ s, fate = .overlapped s := by
  have hhead : "Overlapping edit skipped".toList.head? = some 'O' := by decide
  cases fate with
  | made s => cases h
  | overlapped s =>
      obtain rfl := Option.some.inj h
      exact iff_of_true rfl ⟨s, rfl⟩
  | failed reason spot =>
      obtain rfl := Option.some.inj h
      refine iff_of_false (fun hmessage => ?_) (by simp)
      have hfirst : (Attempt.failure reason spot).message.head? = some 'F' := rfl
      rw [hmessage, hhead] at hfirst
      exact absurd hfirst (by decide)
  | missed =>
      obtain rfl := Option.some.inj h
      refine iff_of_false (fun hmessage => ?_) (by simp)
      have hfirst : (unmatched e).message.head? = some 'N' := rfl
      rw [hmessage, hhead] at hfirst
      exact absurd hfirst (by decide)

/-- The edits reported as applied are those that are made, unless a warning speaks of one that
overlaps. -/
theorem Accounts.applied_eq_iff {source : Text} {nodes : List Node} {edits : List Edit}
    {r : Revision} {ledger : List (Edit × Fate)} (h : Accounts source nodes edits r ledger) :
    r.applied = (ledger.filter (·.2.made?.isSome)).map (·.1) ↔
      ∀ d ∈ r.diagnostics, d.message ≠ "Overlapping edit skipped".toList := by
  have hoverlap : (∀ d ∈ r.diagnostics, d.message ≠ "Overlapping edit skipped".toList) ↔
      ∀ x ∈ ledger, ∀ s, x.2 ≠ .overlapped s := by
    constructor
    · intro hnone x hx s hs
      refine hnone (overlapping source s.start) (h.warned.mem_iff.mpr ?_) rfl
      exact List.mem_filterMap.mpr ⟨x, hx, by rw [hs]; rfl⟩
    · intro hnone d hd hmessage
      obtain ⟨x, hx, hwarning⟩ := List.mem_filterMap.mp (h.warned.mem_iff.mp hd)
      obtain ⟨s, hs⟩ := (Fate.message_eq_iff hwarning).mp hmessage
      exact hnone x hx s hs
  rw [hoverlap, h.applied]
  constructor
  · intro heq x hx s hs
    have hsub : (ledger.filter (·.2.made?.isSome)).Sublist
        (ledger.filter (·.2.splice?.isSome)) := by
      apply List.monotone_filter_right
      rintro ⟨e, fate⟩
      cases fate <;> simp
    have hlength := congrArg List.length heq
    rw [List.length_map, List.length_map] at hlength
    have hmade : x ∈ ledger.filter (·.2.made?.isSome) := by
      rw [hsub.eq_of_length hlength.symm]
      exact List.mem_filter.mpr ⟨hx, by simp [hs]⟩
    simp [hs] at hmade
  · intro hnone
    congr 1
    refine List.filter_congr fun x hx => ?_
    have hx := hnone x hx
    cases hfate : x.2 with
    | overlapped s => exact absurd hfate (hx s)
    | _ => rfl

theorem exists_accounts {parser : Parser} (hordered : parser.Ordered) (hopens : parser.Opens)
    {source path : Text} {tree : List Node} (htree : parser.tree? source path = some tree)
    {edits : List Edit} (hdone : (revise source edits path parser).failed = false) :
    ∃ ledger, Accounts source (Node.elementsOf tree) edits (revise source edits path parser)
      ledger := by
  cases hedits : edits.isEmpty with
  | true =>
      obtain rfl : edits = [] := by simpa using hedits
      exact ⟨[], .refl _, by simp, rfl, .refl _, ⟨[], rfl, .refl _, .nil⟩, by simp⟩
  | false =>
      obtain ⟨log, hlog⟩ := (Progress.Logs.start source edits).visits (Node.elementsOf tree)
      obtain ⟨ledger, haccounts⟩ := hlog.accounts hordered hopens htree
      refine ⟨ledger, ?_⟩
      rw [revise_eq htree (by simpa using hedits) rfl] at hdone ⊢
      dsimp only at hdone ⊢
      split
      · exact haccounts
      · rename_i hbroken
        rw [if_neg hbroken] at hdone
        cases hdone

/-- Every edit is accounted for once. What is reported as applied has been made if and only if no
warning speaks of an edit that overlaps. -/
theorem revise_accounts {parser : Parser} (hordered : parser.Ordered) (hopens : parser.Opens)
    {source path : Text} {tree : List Node} (htree : parser.tree? source path = some tree)
    (edits : List Edit) (hdone : (revise source edits path parser).failed = false) :
    let r := revise source edits path parser
    ∃ ledger, Accounts source (Node.elementsOf tree) edits r ledger ∧
      (r.applied = (ledger.filter (·.2.made?.isSome)).map (·.1) ↔
        ∀ d ∈ r.diagnostics, d.message ≠ "Overlapping edit skipped".toList) := by
  intro r
  obtain ⟨ledger, haccounts⟩ := exists_accounts hordered hopens htree hdone
  exact ⟨ledger, haccounts, haccounts.applied_eq_iff⟩

def oneAttribute : Text := "<a x=\"1\" />".toList

/-- One edit is made and one fails: the report is right about both. -/
theorem revise_accounts_failure :
    let path := "A.jsx".toList
    let edits := [firstEdit .modify ['x'] ['2'], firstEdit .remove ['y'] []]
    let r := revise oneAttribute edits path .bundled
    ∃ tree ledger, Parser.bundled.tree? oneAttribute path = some tree ∧ r.failed = false ∧
      Accounts oneAttribute (Node.elementsOf tree) edits r ledger ∧
      r.applied = (ledger.filter (·.2.made?.isSome)).map (·.1) := by
  intro path edits r
  have hr : r =
      { code := "<a x=\"2\" />".toList
        diagnostics := [Attempt.failure (.noAttribute ['y']) ⟨1, 1, 0⟩]
        applied := [firstEdit .modify ['x'] ['2']] } := by
    decide +kernel
  have hsome : (Parser.bundled.tree? oneAttribute path).isSome = true := by decide +kernel
  obtain ⟨tree, htree⟩ := Option.isSome_iff_exists.mp hsome
  have hdone : r.failed = false := by rw [hr]; decide
  obtain ⟨ledger, haccounts, hiff⟩ := revise_accounts Parser.bundled_ordered Parser.bundled_opens
    htree edits hdone
  refine ⟨tree, ledger, htree, hdone, haccounts, hiff.mpr ?_⟩
  have hdiagnostics : r.diagnostics = [Attempt.failure (.noAttribute ['y']) ⟨1, 1, 0⟩] := by
    rw [hr]
  rw [hdiagnostics]
  decide

/-- Two edits of one attribute: the first one is left out and still reported as applied. -/
theorem revise_reports_overlapped :
    let path := "A.jsx".toList
    let edits := [firstEdit .modify ['x'] ['2'], firstEdit .modify ['x'] ['3']]
    let r := revise oneAttribute edits path .bundled
    r = { code := "<a x=\"3\" />".toList, diagnostics := [overlapping oneAttribute 3]
          applied := edits } ∧
      ∀ nodes ledger, Accounts oneAttribute nodes edits r ledger →
        r.applied ≠ (ledger.filter (·.2.made?.isSome)).map (·.1) := by
  intro path edits r
  let splices : List Splice := [⟨3, 8, "x=\"2\"".toList⟩, ⟨3, 8, "x=\"3\"".toList⟩]
  have hwalk : (Parser.bundled.tree? oneAttribute path).map (fun tree =>
      let done := (Node.elementsOf tree).foldl (Progress.visit oneAttribute)
        { pending := grouped edits.length edits }
      (done.splices, done.applied, done.diagnostics, done.pending)) =
      some (splices, edits, [], []) := by
    decide +kernel
  have happly : Splice.applyAll oneAttribute splices = ("<a x=\"3\" />".toList, [3]) := by
    rw [Splice.applyAll, Splice.backward, List.mergeSort_of_pairwise (by decide)]
    decide
  have hclean : (Parser.bundled.tree? "<a x=\"3\" />".toList path).isSome = true := by
    decide +kernel
  have hr : r = { code := "<a x=\"3\" />".toList, diagnostics := [overlapping oneAttribute 3]
                  applied := edits } := by
    obtain ⟨tree, htree, hdone⟩ := Option.map_eq_some_iff.mp hwalk
    simp only [Prod.mk.injEq] at hdone
    obtain ⟨hsplices, happlied, hdiagnostics, hpending⟩ := hdone
    simp only [r, revise, htree, hsplices, happly, hclean, if_true, hdiagnostics, hpending,
      happlied]
    rfl
  refine ⟨hr, fun nodes ledger haccounts happlied => ?_⟩
  have hnone := haccounts.applied_eq_iff.mp happlied (overlapping oneAttribute 3) (by rw [hr]; simp)
  exact hnone rfl

end MarkupIds.Script
