import MarkupIds.Plan
import MarkupIds.Proofs.Lists
import MarkupIds.Proofs.Naming.Ladder

/-!
# Traces of planning

A trace lists what planning does at each eligible element. The plan is exactly the replay of its
trace, so facts about plans are inductions over traces.
-/

namespace MarkupIds

/-- A namer never settles on an identifier that is taken. -/
def Namer.Fresh (namer : Namer) : Prop :=
  ∀ limit taken base value, namer.settle limit taken base = .ok value → value ∉ taken

theorem Namer.standard_fresh (clock : ℕ) : (Namer.standard clock).Fresh :=
  fun _ _ _ _ h => Naming.settle_not_mem h

theorem Attributes.isSome_get? (attrs : Attributes) (name : Text) :
    (Attributes.get? attrs name).isSome = Attributes.has attrs name := by
  rw [Attributes.get?, Option.isSome_map, List.isSome_find?, Attributes.has]

namespace Plan

/-- The identifiers that an element must leave to others. -/
def others (config : Config) (taken : List Text) (e : Element) : List Text :=
  match e.attribute? config.attributeName with
  | some (c :: cs) => taken.filter (· != c :: cs)
  | _ => taken

/-- An eligible element with its place, the identifier it asked for and the one it got. -/
structure Award where
  element : Element
  place : Position
  base : Text
  value : Text
deriving DecidableEq, Repr

namespace Award

/-- The edit that gives the element its identifier, unless it carries it already. -/
def edit? (config : Config) (a : Award) : Option Edit :=
  if a.element.attribute? config.attributeName = some a.value then none
  else some
    { kind := if (a.element.attribute? config.attributeName).isSome then .modify else .add
      element := a.element
      name := config.attributeName
      value := a.value
      position := a.place }

/-- The element did not get what it asked for. -/
def conflicts (a : Award) : Bool :=
  a.value != a.base

def notes (a : Award) : List Diagnostic :=
  if a.conflicts then [conflict a.base a.value a.place] else []

end Award

/-- What planning does at an eligible element. -/
inductive Event where
  | awarded (a : Award)
  | unplaced (e : Element)

namespace Event

def award? : Event → Option Award
  | .awarded a => some a
  | .unplaced _ => none

/-- The effect of an event on the plan. -/
def replay (config : Config) (p : Plan) : Event → Plan
  | .awarded a =>
    { edits := p.edits ++ (a.edit? config).toList
      diagnostics := p.diagnostics ++ a.notes
      conflicts := p.conflicts + if a.conflicts then 1 else 0
      taken := p.taken.insert a.value }
  | .unplaced e => { p with diagnostics := p.diagnostics ++ [Plan.unplaced e] }

end Event

/-- The awards of a trace, in the order they are made. -/
def awards (trace : List Event) : List Award :=
  trace.filterMap Event.award?

/-- The legal traces of planning from some taken identifiers on. Every identifier that is given is
taken for the elements that follow. -/
inductive Trace (namer : Namer) (config : Config) (scope : Scope) :
    List Text → List Element → List Event → Prop where
  | nil (taken) : Trace namer config scope taken [] []
  | passed {taken e es trace} : eligible config e = .ok false →
      Trace namer config scope taken es trace →
      Trace namer config scope taken (e :: es) trace
  | unplaced {taken e es trace} : eligible config e = .ok true → e.position = none →
      Trace namer config scope taken es trace →
      Trace namer config scope taken (e :: es) (.unplaced e :: trace)
  | awarded {taken e place base value es trace} : eligible config e = .ok true →
      e.position = some place →
      namer.propose config.rules { scope with taken } e = .ok base →
      namer.settle scope.limit (others config taken e) base = .ok value →
      Trace namer config scope (taken.insert value) es trace →
      Trace namer config scope taken (e :: es) (.awarded ⟨e, place, base, value⟩ :: trace)

/-! ## Plans are replays -/

theorem name_eq (namer : Namer) (config : Config) (scope : Scope) (p : Plan) (e : Element)
    (place : Position) :
    p.name namer config scope e place = (do
      let base ← namer.propose config.rules { scope with taken := p.taken } e
      let value ← namer.settle scope.limit (others config p.taken e) base
      return (Event.awarded ⟨e, place, base, value⟩).replay config p) := by
  unfold name
  refine bind_congr fun base => bind_congr fun value => ?_
  by_cases hcurrent : e.attribute? config.attributeName = some value
  · by_cases hsame : value = base <;>
      simp [hcurrent, hsame, Event.replay, Award.edit?, Award.notes, Award.conflicts]
  · by_cases hsame : value = base
    · subst hsame
      simp [hcurrent, Event.replay, Award.edit?, Award.notes, Award.conflicts]
    · simp [hcurrent, hsame, Event.replay, Award.edit?, Award.notes, Award.conflicts]

theorem name_eq_ok_iff {namer : Namer} {config : Config} {scope : Scope} {p q : Plan}
    {e : Element} {place : Position} :
    p.name namer config scope e place = .ok q ↔
      ∃ base value, namer.propose config.rules { scope with taken := p.taken } e = .ok base ∧
        namer.settle scope.limit (others config p.taken e) base = .ok value ∧
        (Event.awarded ⟨e, place, base, value⟩).replay config p = q := by
  rw [name_eq]
  simp only [bind_eq_ok_iff, pure, Except.pure, Except.ok.injEq, exists_and_left]

theorem step_passed {namer : Namer} {config : Config} {scope : Scope} {p : Plan} {e : Element}
    (h : eligible config e = .ok false) : p.step namer config scope e = .ok p := by
  simp [step, h, bind, Except.bind, pure, Except.pure]

theorem step_eligible {namer : Namer} {config : Config} {scope : Scope} {p : Plan} {e : Element}
    (h : eligible config e = .ok true) :
    p.step namer config scope e =
      match e.position with
      | some place => p.name namer config scope e place
      | none => .ok ((Event.unplaced e).replay config p) := by
  cases hposition : e.position <;>
    simp [step, h, hposition, bind, Except.bind, pure, Except.pure, Event.replay]

/-- Every successful run of planning follows a legal trace. -/
theorem exists_trace_of_foldlM {namer : Namer} {config : Config} {scope : Scope} {p q : Plan}
    {es : List Element} (h : es.foldlM (step namer config scope) p = .ok q) :
    ∃ trace, Trace namer config scope p.taken es trace ∧
      trace.foldl (Event.replay config) p = q := by
  induction es generalizing p with
  | nil =>
      simp only [List.foldlM_nil, pure, Except.pure, Except.ok.injEq] at h
      exact ⟨[], .nil p.taken, h⟩
  | cons e es ih =>
      rw [List.foldlM_cons, bind_eq_ok_iff] at h
      obtain ⟨r, hstep, hrest⟩ := h
      obtain ⟨trace, htrace, hreplay⟩ := ih hrest
      cases heligible : eligible config e with
      | error f => simp [step, heligible, bind, Except.bind] at hstep
      | ok b =>
          cases b with
          | false =>
              rw [step_passed heligible, Except.ok.injEq] at hstep
              subst hstep
              exact ⟨trace, .passed heligible htrace, hreplay⟩
          | true =>
              rw [step_eligible heligible] at hstep
              cases hposition : e.position with
              | none =>
                  simp only [hposition, Except.ok.injEq] at hstep
                  subst hstep
                  exact ⟨.unplaced e :: trace, .unplaced heligible hposition htrace, hreplay⟩
              | some place =>
                  simp only [hposition] at hstep
                  obtain ⟨base, value, hbase, hvalue, rfl⟩ := name_eq_ok_iff.mp hstep
                  exact ⟨.awarded ⟨e, place, base, value⟩ :: trace,
                    .awarded heligible hposition hbase hvalue htrace, hreplay⟩

/-- Planning succeeds along every legal trace, and its plan is the replay of the trace. -/
theorem Trace.execution {namer : Namer} {config : Config} {scope : Scope} {taken : List Text}
    {es : List Element} {trace : List Event} (h : Trace namer config scope taken es trace)
    (p : Plan) (hp : p.taken = taken) :
    es.foldlM (step namer config scope) p = .ok (trace.foldl (Event.replay config) p) := by
  induction h generalizing p with
  | nil taken => rfl
  | passed heligible _ ih =>
      rw [List.foldlM_cons, step_passed heligible]
      exact ih p hp
  | @unplaced taken e es trace heligible hposition _ ih =>
      rw [List.foldlM_cons, step_eligible heligible, hposition]
      exact ih ((Event.unplaced e).replay config p) hp
  | @awarded taken e place base value es trace heligible hposition hbase hvalue _ ih =>
      subst hp
      have hname : p.name namer config scope e place =
          .ok ((Event.awarded ⟨e, place, base, value⟩).replay config p) :=
        name_eq_ok_iff.mpr ⟨base, value, hbase, hvalue, rfl⟩
      rw [List.foldlM_cons, step_eligible heligible, hposition]
      simp only [hname]
      exact ih ((Event.awarded ⟨e, place, base, value⟩).replay config p) rfl

theorem ofElements_eq_ok_iff {namer : Namer} {config : Config} {scope : Scope} {p : Plan}
    {es : List Element} :
    ofElements namer config scope es = .ok p ↔
      ∃ trace, Trace namer config scope scope.taken es trace ∧
        trace.foldl (Event.replay config) { taken := scope.taken } = p := by
  refine ⟨exists_trace_of_foldlM, ?_⟩
  rintro ⟨trace, htrace, rfl⟩
  exact htrace.execution _ rfl

/-- The plan for a single eligible element is what naming it makes of an empty plan. -/
theorem ofElements_singleton (namer : Namer) (scope : Scope) {config : Config} {e : Element}
    {place : Position} {base value : Text} (heligible : eligible config e = .ok true)
    (hplace : e.position = some place) (hbase : namer.propose config.rules scope e = .ok base)
    (hvalue : namer.settle scope.limit (others config scope.taken e) base = .ok value) :
    ofElements namer config scope [e] =
      .ok ((Event.awarded ⟨e, place, base, value⟩).replay config { taken := scope.taken }) :=
  ofElements_eq_ok_iff.mpr ⟨_, .awarded heligible hplace hbase hvalue (.nil _), rfl⟩

/-- Nothing is planned where no element is eligible. -/
theorem ofElements_of_ineligible (namer : Namer) (scope : Scope) {config : Config}
    {es : List Element} (h : ∀ e ∈ es, eligible config e = .ok false) :
    ofElements namer config scope es = .ok { taken := scope.taken } := by
  refine ofElements_eq_ok_iff.mpr ⟨[], ?_, rfl⟩
  induction es with
  | nil => exact .nil _
  | cons e es ih => exact .passed (h e (by simp)) (ih fun f hf => h f (by simp [hf]))

end Plan

end MarkupIds
