import MarkupIds.Proofs.Engine

/-!
# All or nothing

A run either leaves the file as it was or makes a revision that the file's framework accepts. A
run that reports an error is of the first kind, whatever the namer and the parser do.
-/

namespace MarkupIds

/-- The check that a new text of a file must pass: a script is clean in some dialect of its path,
a component has the sections it had. -/
def Framework.Accepts (f : Framework) (source code path : Text) (parser : Script.Parser) : Prop :=
  match f with
  | .react => (parser.tree? code path).isSome = true
  | .vue => ∀ name, name ∈ (Sfc.sections code).map (·.name) ↔
      name ∈ (Sfc.sections source).map (·.name)

/-! ## Revisions -/

namespace Script

/-- Every edit that is made has its splice. -/
def Progress.Paired (p : Progress) : Prop :=
  p.splices.length = p.applied.length

/-- What survives every edit and does not depend on the edits that wait survives all visits. -/
theorem Progress.foldl_visit_induction {source : Text} (holds : Progress → Prop)
    (hpending : ∀ p pending, holds p → holds { p with pending })
    (hedit : ∀ p opening spot e, holds p → holds (p.edit source opening spot e))
    {p : Progress} (h : holds p) (nodes : List Node) :
    holds (nodes.foldl (Progress.visit source) p) := by
  have hedits : ∀ opening spot (edits : List Edit) (p : Progress), holds p →
      holds (edits.foldl (Progress.edit source opening spot) p) := by
    intro opening spot edits
    induction edits with
    | nil => exact fun _ h => h
    | cons e edits ih => exact fun p h => ih _ (hedit p opening spot e h)
  induction nodes generalizing p with
  | nil => exact h
  | cons n nodes ih =>
      apply ih
      unfold Progress.visit
      split
      · exact h
      · split
        · exact h
        · exact hedits _ _ _ _ (hpending p _ h)

theorem Progress.paired_edit {source : Text} {opening : Node} {spot : Position} {p : Progress}
    {e : Edit} (h : p.Paired) : (p.edit source opening spot e).Paired := by
  unfold Progress.edit
  split
  · simpa [Progress.Paired] using h
  · exact h

theorem Progress.paired_visits (source : Text) (pending : List Edit) (nodes : List Node) :
    (nodes.foldl (Progress.visit source) { pending }).Paired := by
  have hstart : Progress.Paired { pending } := by simp [Progress.Paired]
  exact foldl_visit_induction Progress.Paired (fun _ _ h => h) (fun _ _ _ _ h => paired_edit h)
    hstart nodes

/-- A script that changes has an edit made in it and is clean again. -/
theorem revise_kept_or_accepted (source : Text) (edits : List Edit) (path : Text)
    (parser : Parser) :
    (revise source edits path parser).code = source ∨
      (revise source edits path parser).applied ≠ [] ∧
        Framework.react.Accepts source (revise source edits path parser).code path parser := by
  unfold revise
  split
  · exact .inl rfl
  · split
    · exact .inl rfl
    · rename_i tree _
      dsimp only
      split
      · rename_i hclean
        by_cases happlied : ((Node.elementsOf tree).foldl (Progress.visit source)
            { pending := grouped edits.length edits }).applied = []
        · have hnone : ((Node.elementsOf tree).foldl (Progress.visit source)
              { pending := grouped edits.length edits }).splices = [] := by
            rw [← List.length_eq_zero_iff, Progress.paired_visits, happlied, List.length_nil]
          refine .inl ?_
          simp only [hnone, Splice.applyAll, Splice.backward, List.reverse_nil,
            List.mergeSort_nil, Splice.applyBelow]
        · exact .inr ⟨happlied, hclean⟩
      · exact .inl rfl

end Script

namespace Sfc

theorem sameNames_iff {a b : List Section} :
    sameNames a b = true ↔ ∀ name, name ∈ a.map (·.name) ↔ name ∈ b.map (·.name) := by
  simp only [sameNames, Bool.and_eq_true, List.all_eq_true, List.contains_iff_mem]
  constructor
  · rintro ⟨hab, hba⟩ name
    exact ⟨hab name, hba name⟩
  · intro h
    exact ⟨fun name => (h name).mp, fun name => (h name).mpr⟩

/-- A component that changes has an edit made in it and keeps the names of its sections. -/
theorem revise_kept_or_accepted (source : Text) (edits : List Edit) (path : Text)
    (parser : Script.Parser) :
    (revise source edits).code = source ∨
      (revise source edits).applied ≠ [] ∧
        Framework.vue.Accepts source (revise source edits).code path parser := by
  unfold revise
  split
  · exact .inl rfl
  · split
    · exact .inl rfl
    · dsimp only
      split
      · exact .inl rfl
      · rename_i happlied
        split
        · rename_i hnames
          exact .inr ⟨by simpa using happlied, sameNames_iff.mp hnames⟩
        · exact .inl rfl

end Sfc

theorem Framework.revise_kept_or_accepted (f : Framework) (source : Text) (edits : List Edit)
    (path : Text) (parser : Script.Parser) :
    (f.revise source edits path parser).code = source ∨
      (f.revise source edits path parser).applied ≠ [] ∧
        f.Accepts source (f.revise source edits path parser).code path parser := by
  cases f with
  | react => exact Script.revise_kept_or_accepted source edits path parser
  | vue => exact Sfc.revise_kept_or_accepted source edits path parser

/-! ## Plans -/

theorem hasErrors_append (a b : List Diagnostic) :
    hasErrors (a ++ b) = (hasErrors a || hasErrors b) := by
  simp [hasErrors]

namespace Plan

theorem hasErrors_replay (config : Config) (p : Plan) (event : Event) :
    hasErrors (event.replay config p).diagnostics = hasErrors p.diagnostics := by
  cases event with
  | unplaced e =>
      have hwarning : hasErrors [Plan.unplaced e] = false := rfl
      simp only [Event.replay, hasErrors_append, hwarning, Bool.or_false]
  | awarded a =>
      have hnotes : hasErrors a.notes = false := by
        unfold Award.notes
        split <;> rfl
      simp only [Event.replay, hasErrors_append, hnotes, Bool.or_false]

theorem hasErrors_foldl_replay (config : Config) (trace : List Event) (p : Plan) :
    hasErrors (trace.foldl (Event.replay config) p).diagnostics = hasErrors p.diagnostics := by
  induction trace generalizing p with
  | nil => rfl
  | cons event trace ih => rw [List.foldl_cons, ih, hasErrors_replay]

/-- Planning warns and informs, but reports no error. -/
theorem hasErrors_ofElements {namer : Namer} {config : Config} {scope : Scope}
    {es : List Element} {p : Plan} (h : ofElements namer config scope es = .ok p) :
    hasErrors p.diagnostics = false := by
  obtain ⟨trace, _, rfl⟩ := ofElements_eq_ok_iff.mp h
  exact hasErrors_foldl_replay config trace _

end Plan

/-! ## Runs -/

namespace Outcome

/-- Nothing has been done to the file. -/
structure Untouched (o : Outcome) : Prop where
  code : o.code = o.source
  edits : o.edits = []
  transformed : o.transformed = 0

theorem Untouched.stop {o : Outcome} (h : o.Untouched) (message : Text) :
    (o.stop message).Untouched :=
  ⟨h.code, h.edits, h.transformed⟩

end Outcome

theorem untouched_opened (f : Framework) (source path : Text) (parser : Script.Parser) :
    (opened f source path parser).Untouched :=
  ⟨rfl, rfl, rfl⟩

/-- What the engine can do to a file that has been read: nothing, or a revision without errors. -/
theorem annotate_cases {namer : Namer} {config : Config} {component : Option Text}
    {f : Framework} {source path : Text} {parser : Script.Parser}
    (hread : (f.read source path parser).failed = false)
    {o : Outcome}
    (h : annotate namer config component f (f.read source path parser)
      (opened f source path parser) parser = .ok o) :
    o.source = source ∧ (o.Untouched ∨ o.success = true ∧ ∃ edits,
      o.code = (f.revise source edits path parser).code ∧
        o.edits = (f.revise source edits path parser).applied) := by
  rw [annotate_eq, bind_eq_ok_iff] at h
  obtain ⟨plan, hplan, h⟩ := h
  dsimp only at h
  split at h
  · obtain rfl := Except.ok.inj h
    exact ⟨rfl, .inl ⟨rfl, rfl, rfl⟩⟩
  · split at h
    · obtain rfl := Except.ok.inj h
      exact ⟨rfl, .inl ⟨rfl, rfl, rfl⟩⟩
    · rename_i hdone
      obtain rfl := Except.ok.inj h
      refine ⟨rfl, .inr ⟨?_, plan.edits, rfl, rfl⟩⟩
      rw [Reading.failed] at hread
      rw [Revision.failed, Bool.not_eq_true] at hdone
      simp only [Outcome.success, hasErrors_append, hread, hdone,
        Plan.hasErrors_ofElements hplan, Bool.or_self, Bool.not_false]

theorem process_cases (namer : Namer) (config : Config) (component : Option Text)
    (source path : Text) (parser : Script.Parser) :
    let o := process namer config component source path parser
    o.source = source ∧ (o.Untouched ∨ o.success = true ∧
      ∃ f edits, Framework.forPath? path = some f ∧
        o.code = (f.revise source edits path parser).code ∧
        o.edits = (f.revise source edits path parser).applied) := by
  intro o
  cases hframework : Framework.forPath? path with
  | none =>
      have hrun : o = { path, source, code := source : Outcome }.stop
          (UnsupportedError.message (.file path)) := by
        simp only [o, process, hframework]
      rw [hrun]
      exact ⟨rfl, .inl ⟨rfl, rfl, rfl⟩⟩
  | some f =>
      cases henabled : config.frameworks.contains f.name with
      | false =>
          have hrun : o = { path, source, code := source, framework := some f : Outcome }.stop
              ("Framework '".toList ++ f.name ++ "' is not enabled".toList) := by
            simp only [o, process, hframework, henabled, Bool.not_false, if_true]
          rw [hrun]
          exact ⟨rfl, .inl ⟨rfl, rfl, rfl⟩⟩
      | true =>
          cases hread : (f.read source path parser).failed with
          | true =>
              have hrun : o = opened f source path parser := by
                simp only [o, process, hframework, henabled, hread, Bool.not_true,
                  Bool.false_eq_true, if_false, if_true]
                rfl
              rw [hrun]
              exact ⟨rfl, .inl (untouched_opened f source path parser)⟩
          | false =>
              have hrun : o = _ := process_eq namer component hframework henabled hread
              cases hannotate : annotate namer config component f (f.read source path parser)
                  (opened f source path parser) parser with
              | error failure =>
                  rw [hannotate] at hrun
                  rw [hrun]
                  exact ⟨rfl, .inl ((untouched_opened f source path parser).stop _)⟩
              | ok done =>
                  rw [hannotate] at hrun
                  obtain ⟨hsource, hcases⟩ := annotate_cases hread hannotate
                  rw [hrun]
                  refine ⟨hsource, hcases.imp_right ?_⟩
                  rintro ⟨hsuccess, edits, hcode, hedits⟩
                  exact ⟨hsuccess, f, edits, rfl, hcode, hedits⟩

/-- A run that reports an error leaves the file as it was and makes no edit. A run that changes
the file reports no error, makes some edit, and its code passes the check of the framework. -/
theorem process_all_or_nothing (namer : Namer) (config : Config) (component : Option Text)
    (source path : Text) (parser : Script.Parser) :
    let o := process namer config component source path parser
    ((∃ d ∈ o.diagnostics, d.severity = .error) →
      o.code = source ∧ o.edits = [] ∧ o.generatedIds = [] ∧ o.transformed = 0 ∧
        o.changed = false) ∧
    (o.changed = true →
      o.success = true ∧ o.edits ≠ [] ∧
        ∃ f, Framework.forPath? path = some f ∧ f.Accepts source o.code path parser) := by
  intro o
  obtain ⟨hsource, hcases⟩ := process_cases namer config component source path parser
  constructor
  · rintro ⟨d, hd, hsevere⟩
    have hfailed : o.success = false := by
      rw [Outcome.success, Bool.not_eq_false', hasErrors, List.any_eq_true]
      exact ⟨d, hd, by simp [hsevere]⟩
    rcases hcases with hkept | ⟨hsuccess, _⟩
    · refine ⟨hkept.code.trans hsource, hkept.edits, ?_, hkept.transformed, ?_⟩
      · rw [Outcome.generatedIds, hkept.edits, List.map_nil]
      · rw [Outcome.changed, hkept.code, bne_self_eq_false]
    · exact absurd hsuccess (by rw [hfailed]; exact Bool.false_ne_true)
  · intro hchanged
    have hdiffers : o.code ≠ source := by
      rw [← hsource]
      simpa [Outcome.changed] using hchanged
    rcases hcases with hkept | ⟨hsuccess, f, edits, hframework, hcode, hedits⟩
    · exact absurd (hkept.code.trans hsource) hdiffers
    · rcases f.revise_kept_or_accepted source edits path parser with hkept | ⟨happlied, haccepts⟩
      · exact absurd (hcode.trans hkept) hdiffers
      · refine ⟨hsuccess, ?_, f, hframework, ?_⟩
        · rwa [hedits]
        · rwa [hcode]

/-- Names the first element of a file and breaks down at the second. -/
def Namer.breaking : Namer where
  propose rules scope e :=
    if scope.taken.isEmpty then Naming.propose rules scope e
    else .error (.raised "out of names".toList)
  settle := Naming.settle 0

/-- A namer that breaks down at the second of two links leaves a component as it was. One that
names the only link of a script changes it. -/
theorem process_all_or_nothing_links :
    let pair := "<template>\n<a>y</a><a>z</a>\n</template>".toList
    let broken := process Namer.breaking {} none pair "A.vue".toList .bundled
    let single := "<a>y</a>".toList
    let path := "A.jsx".toList
    let o := process (Namer.standard 0) {} none single path .bundled
    ((∃ d ∈ broken.diagnostics, d.severity = .error) ∧ broken.code = pair ∧
      broken.edits = [] ∧ broken.transformed = 0) ∧
    o.changed = true ∧ o.success = true ∧ o.edits ≠ [] ∧
      ∃ f, Framework.forPath? path = some f ∧ f.Accepts single o.code path .bundled := by
  intro pair broken single path o
  have herror : ∃ d ∈ broken.diagnostics, d.severity = .error := by decide +kernel
  have hchanged : o.changed = true := by decide +kernel
  obtain ⟨hcode, hedits, _, htransformed, _⟩ :=
    (process_all_or_nothing Namer.breaking {} none pair "A.vue".toList .bundled).1 herror
  exact ⟨⟨herror, hcode, hedits, htransformed⟩, hchanged,
    (process_all_or_nothing (Namer.standard 0) {} none single path .bundled).2 hchanged⟩

end MarkupIds
