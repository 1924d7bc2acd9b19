import MarkupIds.Engine
import MarkupIds.Proofs.Plan.Trace

/-!
# Completed runs

A run that succeeds has read the file, planned for all its elements and revised the source, and
its outcome is put together from these three.
-/

namespace MarkupIds

/-- The scope that the elements of a file are named in. -/
def fileScope (config : Config) (component : Option Text) (f : Framework) (source path : Text)
    (parser : Script.Parser) : Scope :=
  let reading := f.read source path parser
  config.scope path ((component.filter (!·.isEmpty)).or reading.component) (some f)
    (existingIds config.attributeName reading.elements)

/-- A run over a file with the plan that was made and the revision that came of it. -/
structure Completed (namer : Namer) (config : Config) (component : Option Text)
    (source path : Text) (parser : Script.Parser) (f : Framework) (plan : Plan) (done : Revision) :
    Prop where
  framework : Framework.forPath? path = some f
  enabled : config.frameworks.contains f.name = true
  planned : Plan.ofElements namer config (fileScope config component f source path parser)
    (f.read source path parser).elements = .ok plan
  revised : done = if plan.edits.isEmpty then { code := source }
    else f.revise source plan.edits path parser
  code : (process namer config component source path parser).code = done.code
  edits : (process namer config component source path parser).edits = done.applied
  diagnostics : (process namer config component source path parser).diagnostics =
    (f.read source path parser).diagnostics ++ plan.diagnostics ++ done.diagnostics

/-- The outcome of a file that has been read. -/
def opened (f : Framework) (source path : Text) (parser : Script.Parser) : Outcome where
  path := path
  framework := some f
  source := source
  code := source
  elements := (f.read source path parser).elements
  diagnostics := (f.read source path parser).diagnostics
  found := (f.read source path parser).elements.length

theorem success_stop (o : Outcome) (message : Text) : (o.stop message).success = false := by
  simp [Outcome.success, Outcome.stop, hasErrors, Diagnostic.failure]

section Run

variable {config : Config} {source path : Text} {parser : Script.Parser} {f : Framework}

theorem process_eq (namer : Namer) (component : Option Text)
    (hframework : Framework.forPath? path = some f)
    (henabled : config.frameworks.contains f.name = true)
    (hread : (f.read source path parser).failed = false) :
    process namer config component source path parser =
      match annotate namer config component f (f.read source path parser)
          (opened f source path parser) parser with
      | .ok o => o
      | .error failure =>
        (opened f source path parser).stop ("Processing error: ".toList ++ failure.message) := by
  simp only [process, hframework, henabled, hread, Bool.not_true, Bool.false_eq_true, if_false]
  rfl

theorem annotate_eq (namer : Namer) (config : Config) (component : Option Text) (f : Framework)
    (source path : Text) (parser : Script.Parser) :
    annotate namer config component f (f.read source path parser) (opened f source path parser)
        parser = (do
      let plan ← Plan.ofElements namer config (fileScope config component f source path parser)
        (f.read source path parser).elements
      let o := { opened f source path parser with
        diagnostics := (f.read source path parser).diagnostics ++ plan.diagnostics
        conflicts := plan.conflicts }
      if plan.edits.isEmpty then return o
      let done := f.revise source plan.edits path parser
      let o := { o with diagnostics := o.diagnostics ++ done.diagnostics }
      if done.failed then return o
      return { o with
        code := done.code, edits := done.applied, transformed := done.applied.length }) :=
  rfl

variable {namer : Namer} {component : Option Text}

/-- A run that has read and planned reports what its parts report. It is complete unless the
revision failed. -/
theorem process_of_plan {plan : Plan} (hframework : Framework.forPath? path = some f)
    (henabled : config.frameworks.contains f.name = true)
    (hread : (f.read source path parser).failed = false)
    (hplan : Plan.ofElements namer config (fileScope config component f source path parser)
      (f.read source path parser).elements = .ok plan) :
    let done : Revision := if plan.edits.isEmpty then { code := source }
      else f.revise source plan.edits path parser
    (process namer config component source path parser).diagnostics =
        (f.read source path parser).diagnostics ++ plan.diagnostics ++ done.diagnostics ∧
      (done.failed = false →
        Completed namer config component source path parser f plan done) := by
  have hrun := process_eq namer component hframework henabled hread
  rw [annotate_eq, hplan] at hrun
  simp only [bind, Except.bind, pure, Except.pure] at hrun
  cases hempty : plan.edits.isEmpty with
  | true =>
      simp only [hempty, if_true] at hrun ⊢
      have hdiagnostics : (process namer config component source path parser).diagnostics =
          (f.read source path parser).diagnostics ++ plan.diagnostics ++ [] := by
        rw [hrun]
        simp
      refine ⟨hdiagnostics, fun _ => ?_⟩
      exact ⟨hframework, henabled, hplan, by simp [hempty], by rw [hrun]; rfl,
        by rw [hrun]; rfl, hdiagnostics⟩
  | false =>
      simp only [hempty, Bool.false_eq_true, if_false] at hrun ⊢
      have hdiagnostics : (process namer config component source path parser).diagnostics =
          (f.read source path parser).diagnostics ++ plan.diagnostics ++
            (f.revise source plan.edits path parser).diagnostics := by
        rw [hrun]
        cases (f.revise source plan.edits path parser).failed <;> rfl
      refine ⟨hdiagnostics, fun hfailed => ?_⟩
      simp only [hfailed, Bool.false_eq_true, if_false] at hrun
      exact ⟨hframework, henabled, hplan, by simp [hempty], by rw [hrun], by rw [hrun],
        hdiagnostics⟩

/-- Every successful run is complete. -/
theorem process_completed (h : (process namer config component source path parser).success = true) :
    ∃ f plan done, Completed namer config component source path parser f plan done := by
  cases hframework : Framework.forPath? path with
  | none =>
      simp only [process, hframework] at h
      exact absurd h (by simp [success_stop])
  | some f =>
      cases henabled : config.frameworks.contains f.name with
      | false =>
          simp only [process, hframework, henabled, Bool.not_false, if_true] at h
          exact absurd h (by simp [success_stop])
      | true =>
          cases hfailed : (f.read source path parser).failed with
          | true =>
              simp only [process, hframework, henabled, hfailed, Bool.not_true, Bool.false_eq_true,
                if_false, if_true, Outcome.success] at h
              rw [Reading.failed] at hfailed
              simp [hfailed] at h
          | false =>
              cases hplan : Plan.ofElements namer config
                  (fileScope config component f source path parser)
                  (f.read source path parser).elements with
              | error failure =>
                  rw [process_eq _ _ hframework henabled hfailed, annotate_eq, hplan] at h
                  exact absurd h (by simp [bind, Except.bind, success_stop])
              | ok plan =>
                  obtain ⟨hdiagnostics, hcomplete⟩ :=
                    process_of_plan hframework henabled hfailed hplan
                  rw [Outcome.success, hdiagnostics] at h
                  simp only [hasErrors, List.any_append, Bool.not_eq_true', Bool.or_eq_false_iff]
                    at h
                  exact ⟨f, plan, _, hcomplete h.2⟩

/-- A file without eligible elements stays as it is. -/
theorem process_of_ineligible (hframework : Framework.forPath? path = some f)
    (henabled : config.frameworks.contains f.name = true)
    (hread : (f.read source path parser).failed = false)
    (h : ∀ e ∈ (f.read source path parser).elements, eligible config e = .ok false) :
    let o := process namer config component source path parser
    o.success = true ∧ o.edits = [] ∧ o.code = source := by
  have hplan :=
    Plan.ofElements_of_ineligible namer (fileScope config component f source path parser) h
  intro o
  have hrun : o = opened f source path parser := by
    have hrun := process_eq namer component hframework henabled hread
    rw [annotate_eq, hplan] at hrun
    simpa [bind, Except.bind, pure, Except.pure, opened] using hrun
  rw [hrun]
  refine ⟨?_, rfl, rfl⟩
  simpa [Outcome.success, opened, Reading.failed] using hread

end Run

end MarkupIds
