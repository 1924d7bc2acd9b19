import MarkupIds.Proofs.Naming.Alphabet
import MarkupIds.Proofs.Plan.Trace

/-!
# What a plan accounts for

Every identifier that planning gives is fresh, reserved for good, and reported; edits follow the
order of the elements.
-/

namespace MarkupIds.Plan

@[simp] theorem awards_nil : awards [] = [] := rfl

@[simp] theorem awards_awarded (a : Award) (trace : List Event) :
    awards (.awarded a :: trace) = a :: awards trace := rfl

@[simp] theorem awards_unplaced (e : Element) (trace : List Event) :
    awards (.unplaced e :: trace) = awards trace := rfl

/-! ## Replays -/

theorem edits_replay (config : Config) (trace : List Event) (p : Plan) :
    (trace.foldl (Event.replay config) p).edits =
      p.edits ++ (awards trace).filterMap (Award.edit? config) := by
  induction trace generalizing p with
  | nil => simp
  | cons event trace ih =>
      rw [List.foldl_cons, ih]
      cases event with
      | unplaced e => rfl
      | awarded a =>
          cases hedit : a.edit? config <;> simp [Event.replay, hedit]

theorem mem_taken_replay (config : Config) (trace : List Event) (p : Plan) (id : Text) :
    id ∈ (trace.foldl (Event.replay config) p).taken ↔
      id ∈ p.taken ∨ ∃ a ∈ awards trace, a.value = id := by
  induction trace generalizing p with
  | nil => simp
  | cons event trace ih =>
      rw [List.foldl_cons, ih]
      cases event with
      | unplaced e => rfl
      | awarded a =>
          simp only [Event.replay, List.mem_insert_iff, awards_awarded, List.mem_cons,
            exists_eq_or_imp, eq_comm (a := id), or_assoc, or_left_comm]

theorem conflicts_replay (config : Config) (trace : List Event) (p : Plan) :
    (trace.foldl (Event.replay config) p).conflicts =
      p.conflicts + (awards trace).countP Award.conflicts := by
  induction trace generalizing p with
  | nil => simp
  | cons event trace ih =>
      rw [List.foldl_cons, ih]
      cases event with
      | unplaced e => rfl
      | awarded a =>
          simp only [Event.replay, awards_awarded, List.countP_cons]
          omega

/-- The findings of level info are exactly the notes on conflicts. -/
theorem infos_replay (config : Config) (trace : List Event) (p : Plan) :
    (trace.foldl (Event.replay config) p).diagnostics.countP (·.severity == .info) =
      p.diagnostics.countP (·.severity == .info) + (awards trace).countP Award.conflicts := by
  induction trace generalizing p with
  | nil => simp
  | cons event trace ih =>
      rw [List.foldl_cons, ih]
      cases event with
      | unplaced e =>
          have hwarning : (Plan.unplaced e).severity = .warning := rfl
          simp [Event.replay, hwarning]
      | awarded a =>
          have hnotes : a.notes.countP (·.severity == .info) = if a.conflicts then 1 else 0 := by
            unfold Award.notes
            split <;> rfl
          simp only [Event.replay, List.countP_append, hnotes, awards_awarded, List.countP_cons]
          omega

/-! ## Awards of a trace -/

theorem Trace.elements_eq {namer : Namer} {config : Config} {scope : Scope} {taken : List Text}
    {es : List Element} {trace : List Event} (h : Trace namer config scope taken es trace) :
    (awards trace).map (·.element) =
      es.filter fun e => (eligible config e matches .ok true) && e.position.isSome := by
  induction h with
  | nil taken => rfl
  | passed heligible _ ih => simp [heligible, ih]
  | unplaced heligible hposition _ ih => simp [heligible, hposition, ih]
  | awarded heligible hposition _ _ _ ih => simp [heligible, hposition, ih]

theorem Trace.place_eq {namer : Namer} {config : Config} {scope : Scope} {taken : List Text}
    {es : List Element} {trace : List Event} (h : Trace namer config scope taken es trace) :
    ∀ a ∈ awards trace, a.element.position = some a.place := by
  induction h with
  | nil taken => simp
  | passed _ _ ih => exact ih
  | unplaced _ _ _ ih => exact ih
  | awarded _ hposition _ _ _ ih =>
      intro a ha
      rcases List.mem_cons.mp ha with rfl | ha
      · exact hposition
      · exact ih a ha

theorem Award.edit?_eq_some {config : Config} {a : Award} {t : Edit}
    (h : a.edit? config = some t) :
    a.element.attribute? config.attributeName ≠ some a.value ∧ t.element = a.element ∧
      t.value = a.value ∧ t.position = a.place ∧ t.name = config.attributeName ∧
      t.kind = if Attributes.has a.element.attributes config.attributeName then .modify
        else .add := by
  unfold Award.edit? at h
  split at h
  · simp at h
  · rename_i hcurrent
    obtain rfl := Option.some.inj h
    refine ⟨hcurrent, rfl, rfl, rfl, rfl, ?_⟩
    simp only [Element.attribute?, Attributes.isSome_get?]

/-- What an element may take, apart from the identifier it carries, is free for all. -/
theorem not_mem_of_not_mem_others {config : Config} {taken : List Text} {e : Element}
    {value : Text} (h : value ∉ others config taken e)
    (hcurrent : e.attribute? config.attributeName ≠ some value) : value ∉ taken := by
  intro hmem
  apply h
  unfold others
  split
  · rename_i c cs hattribute
    refine List.mem_filter.mpr ⟨hmem, ?_⟩
    simp only [bne_iff_ne, ne_eq]
    rintro rfl
    exact hcurrent hattribute
  · exact hmem

/-- The identifiers that edits write are new and differ from each other. -/
theorem Trace.edits_fresh {namer : Namer} (hnamer : namer.Fresh) {config : Config}
    {scope : Scope} {taken : List Text} {es : List Element} {trace : List Event}
    (h : Trace namer config scope taken es trace) :
    (((awards trace).filterMap (Award.edit? config)).map (·.value)).Nodup ∧
      ∀ t ∈ (awards trace).filterMap (Award.edit? config), t.value ∉ taken := by
  induction h with
  | nil taken => simp
  | passed _ _ ih => exact ih
  | unplaced _ _ _ ih => exact ih
  | @awarded taken e place base value es trace _ _ _ hvalue _ ih =>
      obtain ⟨hnodup, hfresh⟩ := ih
      have hlater : ∀ t ∈ (awards trace).filterMap (Award.edit? config),
          t.value ≠ value ∧ t.value ∉ taken := by
        intro t ht
        simpa [not_or] using hfresh t ht
      rw [awards_awarded, List.filterMap_cons]
      cases hedit : Award.edit? config ⟨e, place, base, value⟩ with
      | none => exact ⟨hnodup, fun t ht => (hlater t ht).2⟩
      | some t =>
          obtain ⟨hcurrent, _, hsame, _⟩ := Award.edit?_eq_some hedit
          have hnew : value ∉ taken :=
            not_mem_of_not_mem_others (hnamer _ _ _ _ hvalue) hcurrent
          refine ⟨List.nodup_cons.mpr ⟨?_, hnodup⟩, ?_⟩
          · intro hmem
            obtain ⟨u, hu, huvalue⟩ := List.mem_map.mp hmem
            exact (hlater u hu).1 (huvalue.trans hsame)
          · intro u hu
            rcases List.mem_cons.mp hu with rfl | hu
            · rwa [hsame]
            · exact (hlater u hu).2

/-! ## The account -/

/-- What a plan says about the elements it was made for and the awards that were made. -/
structure Account (config : Config) (scope : Scope) (es : List Element) (awards : List Award)
    (p : Plan) : Prop where
  distinct : (p.edits.map (·.value)).Nodup
  fresh : ∀ t ∈ p.edits, t.value ∉ scope.taken
  named : awards.map (·.element) =
    es.filter fun e => (eligible config e matches .ok true) && e.position.isSome
  taken : ∀ id, id ∈ p.taken ↔ id ∈ scope.taken ∨ ∃ a ∈ awards, a.value = id
  edits : p.edits = awards.filterMap (Award.edit? config)
  order : (p.edits.map (·.element)).Sublist es
  places : ∀ t ∈ p.edits, t.element.position = some t.position
  kinds : ∀ t ∈ p.edits, t.name = config.attributeName ∧
    t.kind = if Attributes.has t.element.attributes config.attributeName then .modify else .add
  infos : p.conflicts = p.diagnostics.countP (·.severity == .info)
  conflicts : p.conflicts = awards.countP fun a => a.value != a.base

theorem Trace.elements_sublist {namer : Namer} {config : Config} {scope : Scope}
    {taken : List Text} {es : List Element} {trace : List Event}
    (h : Trace namer config scope taken es trace) :
    (((awards trace).filterMap (Award.edit? config)).map (·.element)).Sublist es := by
  have hedits : ((awards trace).filterMap (Award.edit? config)).map (·.element) =
      (awards trace).filterMap fun a => (a.edit? config).map (·.element) := by
    rw [List.map_filterMap]
  have hsame : ((awards trace).filterMap fun a => (a.edit? config).map (·.element)) =
      ((awards trace).filter fun a => (a.edit? config).isSome).map (·.element) := by
    rw [← List.filterMap_eq_map, List.filterMap_filter]
    apply List.filterMap_congr
    intro a _
    cases hedit : a.edit? config with
    | none => rfl
    | some t => simp [(Award.edit?_eq_some hedit).2.1]
  rw [hedits, hsame]
  have hawards : ((awards trace).map (·.element)).Sublist es := by
    rw [h.elements_eq]
    exact List.filter_sublist
  exact (List.filter_sublist.map _).trans hawards

theorem Trace.account {namer : Namer} (hnamer : namer.Fresh) {config : Config} {scope : Scope}
    {es : List Element} {trace : List Event}
    (h : Trace namer config scope scope.taken es trace) :
    Account config scope es (awards trace)
      (trace.foldl (Event.replay config) { taken := scope.taken }) := by
  have hedits : (trace.foldl (Event.replay config) { taken := scope.taken }).edits =
      (awards trace).filterMap (Award.edit? config) := by
    simpa using edits_replay config trace { taken := scope.taken }
  have hconflicts := conflicts_replay config trace { taken := scope.taken }
  have hinfos := infos_replay config trace { taken := scope.taken }
  simp only [List.countP_nil, Nat.zero_add] at hconflicts hinfos
  obtain ⟨hnodup, hfresh⟩ := h.edits_fresh hnamer
  refine ⟨?_, ?_, h.elements_eq, mem_taken_replay config trace _, hedits, ?_, ?_, ?_, ?_, ?_⟩
  · rwa [hedits]
  · rwa [hedits]
  · rw [hedits]
    exact h.elements_sublist
  · intro t ht
    rw [hedits] at ht
    obtain ⟨a, ha, hedit⟩ := List.mem_filterMap.mp ht
    obtain ⟨_, helement, _, hposition, _⟩ := Award.edit?_eq_some hedit
    rw [helement, hposition]
    exact h.place_eq a ha
  · intro t ht
    rw [hedits] at ht
    obtain ⟨a, _, hedit⟩ := List.mem_filterMap.mp ht
    obtain ⟨_, helement, _, _, hname, hkind⟩ := Award.edit?_eq_some hedit
    exact ⟨hname, by rw [hkind, helement]⟩
  · rw [hconflicts, hinfos]
  · exact hconflicts

/-- A finished plan has a trace in which every award is the settled proposal of its element, and
the plan accounts for exactly these awards. -/
theorem ofElements_accounts (clock : ℕ) (config : Config) (scope : Scope) (es : List Element)
    (p : Plan) (h : ofElements (Namer.standard clock) config scope es = .ok p) :
    ∃ trace, Trace (Namer.standard clock) config scope scope.taken es trace ∧
      Account config scope es (awards trace) p := by
  obtain ⟨trace, htrace, rfl⟩ := ofElements_eq_ok_iff.mp h
  exact ⟨trace, htrace, htrace.account (Namer.standard_fresh clock)⟩

/-- A button keeps the identifier it carries, and the next one gets a number of its own. -/
theorem ofElements_accounts_kept :
    let config : Config := { preserveExisting := false }
    let scope : Scope := { taken := ["btn".toList, "btn-1".toList] }
    let kept : Element :=
      { tag := "button".toList
        attributes := [("data-testid".toList, "btn-1".toList)]
        position := some ⟨1, 1, 0⟩ }
    let named : Element := { tag := "button".toList, position := some ⟨2, 1, 20⟩ }
    ∃ p trace, ofElements (Namer.standard 0) config scope [kept, named] = .ok p ∧
      p.edits.map (·.value) = ["btn-2".toList] ∧
      Trace (Namer.standard 0) config scope scope.taken [kept, named] trace ∧
      Account config scope [kept, named] (awards trace) p := by
  intro config scope kept named
  have htrace : Trace (Namer.standard 0) config scope scope.taken [kept, named]
      [.awarded ⟨kept, ⟨1, 1, 0⟩, "btn".toList, "btn-1".toList⟩,
        .awarded ⟨named, ⟨2, 1, 20⟩, "btn".toList, "btn-2".toList⟩] := by
    refine .awarded (by decide) rfl ?_ ?_ (.awarded (by decide) rfl ?_ ?_ (.nil _))
    · exact (Naming.propose_nil _ kept).trans (by decide)
    · rw [Namer.standard, Naming.settle_eq_ok_iff]
      decide +kernel
    · exact (Naming.propose_nil _ named).trans (by decide)
    · rw [Namer.standard, Naming.settle_eq_ok_iff]
      decide +kernel
  have hplan := ofElements_eq_ok_iff.mpr ⟨_, htrace, rfl⟩
  obtain ⟨trace, hlegal, haccount⟩ := ofElements_accounts 0 config scope [kept, named] _ hplan
  exact ⟨_, trace, hplan, by decide, hlegal, haccount⟩

end MarkupIds.Plan
