import MarkupIds.Proofs.Plan.Edits

/-!
# Naming elements again

An element that is named again may keep the identifier it carries. Two elements end with one
identifier only if both carried it before, and a second run over elements that were named in a
first one keeps every name.
-/

namespace MarkupIds

namespace Plan

/-! ## Identifiers that elements carry after a plan -/

/-- What an element carries once the plan is carried out: the planned identifier, or its own if
none is planned. -/
def Award.carried (config : Config) (a : Award) : Option Text :=
  ((a.edit? config).map (·.value)).or (a.element.attribute? config.attributeName)

theorem Award.carried_eq (config : Config) (a : Award) : a.carried config = some a.value := by
  unfold Award.carried
  cases hedit : a.edit? config with
  | none =>
      by_contra hdiffers
      have hcurrent : a.element.attribute? config.attributeName ≠ some a.value := hdiffers
      simp [Award.edit?, hcurrent] at hedit
  | some t =>
      obtain ⟨_, _, hvalue, _⟩ := Award.edit?_eq_some hedit
      simp [hvalue]

/-- An element takes an identifier that is taken only if it carries it. -/
theorem attribute?_of_not_mem_others {config : Config} {taken : List Text} {e : Element}
    {id : Text} (htaken : id ∈ taken) (h : id ∉ others config taken e) :
    e.attribute? config.attributeName = some id ∧ id ≠ [] := by
  unfold others at h
  split at h
  · rename_i c cs hcurrent
    have hsame : id = c :: cs := by
      by_contra hdiffers
      exact h (List.mem_filter.mpr ⟨htaken, by simpa using hdiffers⟩)
    rw [hsame]
    exact ⟨hcurrent, List.cons_ne_nil c cs⟩
  · exact absurd htaken h

section Repeats

variable {namer : Namer} {config : Config} {scope : Scope} {taken : List Text}
  {es : List Element} {trace : List Event}

theorem Trace.element_mem (h : Trace namer config scope taken es trace) {a : Award}
    (ha : a ∈ awards trace) : a.element ∈ es ∧ eligible config a.element = .ok true := by
  have hmem : a.element ∈ (awards trace).map (·.element) := List.mem_map_of_mem ha
  rw [h.elements_eq, List.mem_filter, Bool.and_eq_true] at hmem
  obtain ⟨hes, heligible, _⟩ := hmem
  refine ⟨hes, ?_⟩
  cases hresult : eligible config a.element with
  | error f => simp [hresult] at heligible
  | ok b =>
      cases b with
      | false => simp [hresult] at heligible
      | true => rfl

theorem Trace.carries_of_mem (hnamer : namer.Fresh) (h : Trace namer config scope taken es trace)
    {id : Text} (hid : id ∈ taken) :
    ∀ a ∈ awards trace, a.value = id →
      a.element.attribute? config.attributeName = some id ∧ id ≠ [] := by
  induction h with
  | nil taken => simp
  | passed _ _ ih => exact ih hid
  | unplaced _ _ _ ih => exact ih hid
  | awarded _ _ _ hvalue _ ih =>
      rw [awards_awarded, List.forall_mem_cons]
      refine ⟨?_, ih (List.mem_insert_of_mem hid)⟩
      rintro rfl
      exact attribute?_of_not_mem_others hid (hnamer _ _ _ _ hvalue)

/-- If the identifiers of all elements are taken from the start, an identifier is given twice
only to elements that carry it both. -/
theorem Trace.repeats (hnamer : namer.Fresh) (h : Trace namer config scope taken es trace)
    (hseeded : ∀ e ∈ es, ∀ id, e.attribute? config.attributeName = some id → id ≠ [] →
      id ∈ taken) :
    (awards trace).Pairwise fun a b => a.value = b.value →
      a.element.attribute? config.attributeName = some a.value ∧
        b.element.attribute? config.attributeName = some b.value ∧ a.value ≠ [] := by
  induction h with
  | nil taken => exact .nil
  | passed _ _ ih => exact ih fun e he => hseeded e (List.mem_cons_of_mem _ he)
  | unplaced _ _ _ ih => exact ih fun e he => hseeded e (List.mem_cons_of_mem _ he)
  | @awarded taken e place base value es trace _ _ _ hvalue hrest ih =>
      rw [awards_awarded, List.pairwise_cons]
      refine ⟨?_, ih fun e he id hid hne =>
        List.mem_insert_of_mem (hseeded e (List.mem_cons_of_mem _ he) id hid hne)⟩
      intro b hb hsame
      obtain ⟨hlater, hne⟩ :=
        hrest.carries_of_mem hnamer List.mem_insert_self b hb hsame.symm
      -- The later element brought the identifier along, so it was taken from the start.
      have htaken : value ∈ taken :=
        hseeded _ (List.mem_cons_of_mem _ (hrest.element_mem hb).1) value hlater hne
      have hkept := (attribute?_of_not_mem_others htaken (hnamer _ _ _ _ hvalue)).1
      exact ⟨hkept, by rwa [← hsame], hne⟩

end Repeats

/-- After a plan for a file whose identifiers are taken from the start, two eligible elements
carry one identifier only if both keep it as their own. So the identifiers are distinct if those
that the eligible elements brought along are. -/
theorem ofElements_repeats (clock : ℕ) (config : Config) (path : Text) (component : Option Text)
    (framework : Option Framework) (es : List Element) (p : Plan)
    (h : ofElements (Namer.standard clock) config
      (config.scope path component framework (existingIds config.attributeName es)) es = .ok p) :
    let scope := config.scope path component framework (existingIds config.attributeName es)
    ∃ trace, Trace (Namer.standard clock) config scope scope.taken es trace ∧
      p.edits = (awards trace).filterMap (Award.edit? config) ∧
      (awards trace).map (·.element) =
        es.filter (fun e => (eligible config e matches .ok true) && e.position.isSome) ∧
      ((awards trace).Pairwise fun a b => a.carried config = b.carried config →
        a.element.attribute? config.attributeName = a.carried config ∧
          b.element.attribute? config.attributeName = b.carried config ∧
          a.carried config ≠ some []) ∧
      ((((awards trace).map (·.element)).filterMap
          fun e => Attributes.filled? e.attributes config.attributeName).Nodup →
        ((awards trace).map (Award.carried config)).Nodup) := by
  intro scope
  obtain ⟨trace, htrace, rfl⟩ := ofElements_eq_ok_iff.mp h
  have hrepeats := htrace.repeats (Namer.standard_fresh clock)
    fun e he id hid hne => mem_existingIds he hid hne
  refine ⟨trace, htrace, by rw [edits_replay]; rfl, htrace.elements_eq, ?_, ?_⟩
  · simpa only [Award.carried_eq, Option.some.injEq, ne_eq] using hrepeats
  · intro hdistinct
    rw [List.filterMap_map, List.Nodup, List.pairwise_filterMap] at hdistinct
    rw [List.Nodup, List.pairwise_map]
    refine hrepeats.imp₂ ?_ hdistinct
    intro a b hrepeat hdiffer hcarried
    rw [Award.carried_eq, Award.carried_eq, Option.some.injEq] at hcarried
    obtain ⟨ha, hb, hne⟩ := hrepeat hcarried
    rw [Element.attribute?] at ha hb
    rw [← hcarried] at hb
    exact hdiffer a.value (by simp [Attributes.filled?, ha, hne]) a.value
      (by simp [Attributes.filled?, hb, hne]) rfl

/-- A button that carries an identifier. -/
def labelled (id : Text) (place : Position) : Element where
  tag := "button".toList
  attributes := [("data-testid".toList, id)]
  position := some place

/-- Two buttons that carry the identifier they ask for both keep it. -/
theorem ofElements_repeats_twins :
    let config : Config := { preserveExisting := false }
    let twins := [labelled "test-btn".toList ⟨1, 1, 0⟩, labelled "test-btn".toList ⟨2, 1, 40⟩]
    let scope := config.scope "A.jsx".toList none none (existingIds config.attributeName twins)
    ∃ p trace, ofElements (Namer.standard 0) config scope twins = .ok p ∧ p.edits = [] ∧
      Trace (Namer.standard 0) config scope scope.taken twins trace ∧
      (awards trace).map (Award.carried config) =
        [some "test-btn".toList, some "test-btn".toList] ∧
      ¬ ((awards trace).map (Award.carried config)).Nodup := by
  intro config twins scope
  have htrace : Trace (Namer.standard 0) config scope scope.taken twins
      [.awarded ⟨labelled "test-btn".toList ⟨1, 1, 0⟩, ⟨1, 1, 0⟩, "test-btn".toList,
          "test-btn".toList⟩,
        .awarded ⟨labelled "test-btn".toList ⟨2, 1, 40⟩, ⟨2, 1, 40⟩, "test-btn".toList,
          "test-btn".toList⟩] := by
    refine .awarded (by decide) rfl ?_ ?_ (.awarded (by decide) rfl ?_ ?_ (.nil _))
    · exact (Naming.propose_nil _ _).trans (by decide)
    · rw [Namer.standard, Naming.settle_eq_ok_iff]
      decide +kernel
    · exact (Naming.propose_nil _ _).trans (by decide)
    · rw [Namer.standard, Naming.settle_eq_ok_iff]
      decide +kernel
  exact ⟨_, _, ofElements_eq_ok_iff.mpr ⟨_, htrace, rfl⟩, by decide, htrace, by decide, by decide⟩

/-- Two buttons with identifiers of their own end with different ones, although both ask for the
one that the second carries. -/
theorem ofElements_repeats_distinct :
    let config : Config := { preserveExisting := false }
    let pair := [labelled "old".toList ⟨1, 1, 0⟩, labelled "test-btn".toList ⟨2, 1, 40⟩]
    let scope := config.scope "A.jsx".toList none none (existingIds config.attributeName pair)
    ∃ p trace, ofElements (Namer.standard 0) config scope pair = .ok p ∧
      p.edits.map (·.value) = ["test-btn-1".toList] ∧
      p.edits = (awards trace).filterMap (Award.edit? config) ∧
      ((awards trace).map (Award.carried config)).Nodup := by
  intro config pair scope
  have hrun : (ofElements (Namer.standard 0) config scope pair).toOption.map
      (fun p => p.edits.map (·.value)) = some ["test-btn-1".toList] := by decide +kernel
  cases hplan : ofElements (Namer.standard 0) config scope pair with
  | error f => simp [hplan, Except.toOption] at hrun
  | ok p =>
      rw [hplan] at hrun
      obtain ⟨trace, _, hedits, helements, _, hdistinct⟩ :=
        ofElements_repeats 0 config "A.jsx".toList none none pair p hplan
      refine ⟨p, trace, rfl, Option.some.inj hrun, hedits, hdistinct ?_⟩
      rw [helements]
      decide

end Plan

/-! ## Names do not depend on identifiers -/

namespace Attributes

theorem filled?_set {attrs : Attributes} {name other : Text} (value : Text) (h : name ≠ other) :
    filled? (set attrs name value) other = filled? attrs other := by
  have hname : (name == other) = false := by simpa using h
  rw [filled?, get?_set, hname, filled?]
  rfl

end Attributes

/-- The element with an attribute set. -/
def Element.set (e : Element) (name value : Text) : Element :=
  { e with attributes := Attributes.set e.attributes name value }

theorem Element.attribute?_set (e : Element) (name value : Text) :
    (e.set name value).attribute? name = some value := by
  simp [Element.set, Element.attribute?, Attributes.get?_set]

theorem Element.classes_set {e : Element} {name : Text} (value : Text)
    (hfirst : name ≠ "className".toList) (hsecond : name ≠ "class".toList) :
    (e.set name value).classes = e.classes := by
  rw [Element.classes, Element.set, Attributes.filled?_set value hfirst,
    Attributes.filled?_set value hsecond, Element.classes]

namespace Naming

/-- The attributes that describe an element in its proposal. -/
def describingAttributes : List Text :=
  meaningfulAttributes ++ ariaAttributes ++ ["className".toList, "class".toList]

theorem attributeKeywords_set {e : Element} {name : Text} (value : Text) {names : List Text}
    (h : name ∉ names) :
    attributeKeywords (e.set name value) names = attributeKeywords e names := by
  unfold attributeKeywords
  apply List.flatMap_congr
  intro other hother
  have hdiffer : name ≠ other := by
    rintro rfl
    exact h hother
  rw [Element.set, Attributes.filled?_set value hdiffer]

theorem defaultEntries_set (scope : Scope) (e : Element) {name : Text} (value : Text)
    (h : name ∉ describingAttributes) :
    defaultEntries scope (e.set name value) = defaultEntries scope e := by
  simp only [describingAttributes, List.mem_append, List.mem_cons, not_or] at h
  obtain ⟨⟨hmeaningful, haria⟩, hclassName, hclass, _⟩ := h
  have hparts : semanticParts (e.set name value) = semanticParts e := by
    have hfilter : ∀ p : Text → Bool, name ∉ meaningfulAttributes.filter p :=
      fun p hmem => hmeaningful (List.mem_filter.mp hmem).1
    unfold semanticParts classKeywords
    dsimp only
    rw [attributeKeywords_set value (hfilter _), attributeKeywords_set value haria,
      Element.classes_set value hclassName hclass]
    rfl
  have htype : elementType (e.set name value) = elementType e := rfl
  rw [defaultEntries, defaultEntries, hparts, htype]

/-- Without rules a proposal depends neither on an attribute that does not describe the element
nor on what is taken. -/
theorem propose_nil_set (scope : Scope) (taken taken' : List Text) (e : Element) {name : Text}
    (value : Text) (h : name ∉ describingAttributes) :
    propose [] { scope with taken } (e.set name value) =
      propose [] { scope with taken := taken' } e := by
  rw [propose_nil, propose_nil, defaultEntries_set _ _ _ h]
  rfl

/-- The first free identifier stays the first when others are taken but not it. -/
theorem settle_of_subset {clock : ℕ} {limit : Limit} {taken taken' : List Text}
    {candidate id : Text} (h : settle clock limit taken candidate = .ok id)
    (hsubset : ∀ x ∈ taken, x ∈ taken') (hfree : id ∉ taken') :
    settle clock limit taken' candidate = .ok id := by
  rw [settle_eq_ok_iff, resolve_eq_some_iff] at h ⊢
  obtain ⟨n, rfl, _, hbefore⟩ := h
  exact ⟨n, rfl, hfree, fun k hk => hsubset _ (hbefore k hk)⟩

end Naming

theorem eligible_set {config : Config} (hoff : config.preserveExisting = false) (e : Element)
    (name value : Text) : eligible config (e.set name value) = eligible config e := by
  simp only [eligible, hoff, Bool.false_and, Bool.false_eq_true, if_false]
  rfl

namespace Plan

/-! ## Elements after their edits -/

/-- The elements once edits have been made that stand in the order of their elements. -/
def carryOut : List Element → List Edit → List Element
  | [], _ => []
  | e :: es, [] => e :: es
  | e :: es, t :: ts =>
    if t.element = e then e.set t.name t.value :: carryOut es ts else e :: carryOut es (t :: ts)

theorem carryOut_cons_of_ne {e : Element} {ts : List Edit} (h : ∀ t ∈ ts, t.element ≠ e)
    (es : List Element) : carryOut (e :: es) ts = e :: carryOut es ts := by
  cases ts with
  | nil => cases es <;> rfl
  | cons t ts => rw [carryOut, if_neg (h t (by simp))]

section CarryOut

variable {namer : Namer} {config : Config} {scope : Scope} {taken : List Text}
  {es : List Element} {trace : List Event}

theorem Trace.carryOut_skipped (h : Trace namer config scope taken es trace) {e : Element}
    (hskipped : eligible config e = .ok false ∨ e.position = none) :
    carryOut (e :: es) (editsOf config trace) = e :: carryOut es (editsOf config trace) := by
  apply carryOut_cons_of_ne
  rintro t ht rfl
  obtain ⟨a, ha, hedit⟩ := List.mem_filterMap.mp ht
  rw [(Award.edit?_eq_some hedit).2.1, h.place_eq a ha, (h.element_mem ha).2] at hskipped
  rcases hskipped with hskipped | hskipped <;> cases hskipped

theorem carryOut_awarded {a : Award}
    (h : Attributes.has a.element.attributes config.attributeName = false) :
    carryOut (a.element :: es) (editsOf config (.awarded a :: trace)) =
      a.element.set config.attributeName a.value :: carryOut es (editsOf config trace) := by
  rw [editsOf_awarded h, carryOut, if_pos rfl]

/-- Every award is found on an element after its edit. -/
theorem Trace.exists_mem_carryOut (h : Trace namer config scope taken es trace)
    (hbare : ∀ e ∈ es, Attributes.has e.attributes config.attributeName = false) :
    ∀ a ∈ awards trace, ∃ e ∈ carryOut es (editsOf config trace),
      e.attribute? config.attributeName = some a.value := by
  induction h with
  | nil taken => simp
  | passed heligible hrest ih =>
      rw [hrest.carryOut_skipped (.inl heligible)]
      exact fun a ha => List.exists_mem_cons_of_exists
        (ih (fun e he => hbare e (List.mem_cons_of_mem _ he)) a ha)
  | @unplaced taken e es trace heligible hposition hrest ih =>
      rw [show editsOf config (.unplaced e :: trace) = editsOf config trace from rfl,
        hrest.carryOut_skipped (.inr hposition)]
      exact fun a ha => List.exists_mem_cons_of_exists
        (ih (fun e he => hbare e (List.mem_cons_of_mem _ he)) a ha)
  | @awarded taken e place base value es trace _ _ _ _ hrest ih =>
      have hstep := @carryOut_awarded config es trace ⟨e, place, base, value⟩ (hbare e (by simp))
      rw [hstep, awards_awarded, List.forall_mem_cons]
      refine ⟨⟨_, List.mem_cons_self, Element.attribute?_set _ _ _⟩, ?_⟩
      exact fun a ha => List.exists_mem_cons_of_exists
        (ih (fun e he => hbare e (List.mem_cons_of_mem _ he)) a ha)

end CarryOut

/-! ## Planning again -/

theorem others_of_bare {config : Config} {taken : List Text} {e : Element}
    (h : Attributes.has e.attributes config.attributeName = false) :
    others config taken e = taken := by
  rw [others, Element.attribute?_of_not_has h]

theorem others_of_carried {config : Config} {taken : List Text} {e : Element} {id : Text}
    (h : e.attribute? config.attributeName = some id) (hne : id ≠ []) :
    others config taken e = taken.filter (· != id) := by
  cases id with
  | nil => exact absurd rfl hne
  | cons c cs => rw [others, h]

theorem Award.edit?_of_carried {config : Config} {a : Award}
    (h : a.element.attribute? config.attributeName = some a.value) : a.edit? config = none := by
  rw [Award.edit?, if_pos h]

/-- Named elements keep their names when all names are taken from the start: what was taken when
an element got its name still is, and its own name is free for it. -/
theorem Trace.replan {clock : ℕ} {config : Config} {scope : Scope} {taken : List Text}
    {es : List Element} {trace : List Event}
    (hoff : config.preserveExisting = false) (hrules : config.rules = [])
    (hlimit : ∀ m, scope.limit = some m → 0 ≤ m)
    (hname : config.attributeName ∉ Naming.describingAttributes)
    (h : Trace (Namer.standard clock) config scope taken es trace)
    (hbare : ∀ e ∈ es, Attributes.has e.attributes config.attributeName = false)
    {seeds : List Text} (hseeds : ∀ id ∈ taken, id ∈ seeds)
    (hvalues : ∀ a ∈ awards trace, a.value ∈ seeds) :
    ∃ again, Trace (Namer.standard clock) config { scope with taken := seeds } seeds
        (carryOut es (editsOf config trace)) again ∧
      editsOf config again = [] ∧
      (awards again).countP Award.conflicts = (awards trace).countP Award.conflicts := by
  have hne := h.values_ne_nil hlimit
  induction h with
  | nil taken => exact ⟨[], .nil seeds, rfl, rfl⟩
  | passed heligible hrest ih =>
      obtain ⟨again, hagain, hedits, hcount⟩ :=
        ih (fun e he => hbare e (List.mem_cons_of_mem _ he)) hseeds hvalues hne
      rw [hrest.carryOut_skipped (.inl heligible)]
      exact ⟨again, .passed heligible hagain, hedits, hcount⟩
  | @unplaced taken e es trace heligible hposition hrest ih =>
      obtain ⟨again, hagain, hedits, hcount⟩ :=
        ih (fun e he => hbare e (List.mem_cons_of_mem _ he)) hseeds hvalues hne
      have hstep := hrest.carryOut_skipped (.inr hposition)
      exact ⟨.unplaced e :: again, hstep ▸ .unplaced heligible hposition hagain, hedits, hcount⟩
  | @awarded taken e place base value es trace heligible hposition hbase hvalue hrest ih =>
      rw [awards_awarded, List.forall_mem_cons] at hvalues hne
      have hfree : value ∉ taken := by
        rw [others_of_bare (hbare e (by simp))] at hvalue
        exact Naming.settle_not_mem hvalue
      obtain ⟨again, hagain, hedits, hcount⟩ :=
        ih (fun e he => hbare e (List.mem_cons_of_mem _ he))
          (fun id hid => (List.mem_insert_iff.mp hid).elim (· ▸ hvalues.1) (hseeds id))
          hvalues.2 hne.2
      have hstep := @carryOut_awarded config es trace ⟨e, place, base, value⟩ (hbare e (by simp))
      have hcarries := Element.attribute?_set e config.attributeName value
      -- The name is chosen among more taken ones now, and still the first free one.
      have hsettled : Naming.settle clock scope.limit
          (others config seeds (e.set config.attributeName value)) base = .ok value := by
        rw [others_of_bare (hbare e (by simp))] at hvalue
        rw [others_of_carried hcarries hne.1]
        refine Naming.settle_of_subset hvalue ?_ (by simp)
        intro id hid
        rw [List.mem_filter, bne_iff_ne]
        exact ⟨hseeds id hid, by rintro rfl; exact hfree hid⟩
      have hproposed : Naming.propose config.rules { scope with taken := seeds }
          (e.set config.attributeName value) = .ok base := by
        rw [← hbase, hrules]
        exact Naming.propose_nil_set scope seeds taken e value hname
      have hkept : (seeds.insert value) = seeds := List.insert_of_mem hvalues.1
      refine ⟨.awarded ⟨e.set config.attributeName value, place, base, value⟩ :: again, ?_, ?_, ?_⟩
      · rw [hstep]
        exact .awarded ((eligible_set hoff e _ _).trans heligible) hposition hproposed hsettled
          (hkept.symm ▸ hagain)
      · rw [editsOf, awards_awarded, List.filterMap_cons, Award.edit?_of_carried hcarries]
        exact hedits
      · simp only [awards_awarded, List.countP_cons, hcount]
        rfl

/-- Elements without identifiers that are named from nothing and named again keep their names: the
second plan has no edits and meets the same number of conflicts. -/
theorem ofElements_again (clock : ℕ) (config : Config) (path : Text) (component : Option Text)
    (framework : Option Framework) (es : List Element) (p : Plan)
    (hoff : config.preserveExisting = false) (hrules : config.rules = [])
    (hlimit : 0 ≤ config.limit) (hname : config.attributeName ∉ Naming.describingAttributes)
    (hbare : ∀ e ∈ es, Attributes.has e.attributes config.attributeName = false)
    (h : ofElements (Namer.standard clock) config (config.scope path component framework []) es =
      .ok p) :
    let named := carryOut es p.edits
    ∃ q, ofElements (Namer.standard clock) config
        (config.scope path component framework (existingIds config.attributeName named)) named =
          .ok q ∧
      q.edits = [] ∧ q.conflicts = p.conflicts := by
  intro named
  obtain ⟨trace, htrace, rfl⟩ := ofElements_eq_ok_iff.mp h
  have hnonneg : ∀ m, (config.scope path component framework []).limit = some m → 0 ≤ m := by
    intro m hm
    obtain rfl := Option.some.inj hm
    exact hlimit
  have hnamed : named = carryOut es (editsOf config trace) := by
    simp only [named, edits_replay]
    rfl
  have hvalues : ∀ a ∈ awards trace, a.value ∈ existingIds config.attributeName named := by
    intro a ha
    obtain ⟨e, he, hcarries⟩ := htrace.exists_mem_carryOut hbare a ha
    exact mem_existingIds (hnamed ▸ he) hcarries (htrace.values_ne_nil hnonneg a ha)
  obtain ⟨again, hagain, hedits, hcount⟩ :=
    htrace.replan hoff hrules hnonneg hname hbare (by simp [Config.scope]) hvalues
  rw [← hnamed] at hagain
  refine ⟨_, ofElements_eq_ok_iff.mpr ⟨again, hagain, rfl⟩, ?_, ?_⟩
  · rw [edits_replay]
    exact hedits
  · rw [conflicts_replay, conflicts_replay, hcount]

/-- Two buttons that ask for one identifier keep what they got. -/
theorem ofElements_again_pair :
    let config : Config := { preserveExisting := false }
    let pair : List Element :=
      [{ tag := "button".toList, position := some ⟨1, 1, 0⟩ },
        { tag := "button".toList, position := some ⟨2, 1, 20⟩ }]
    ∃ p q, ofElements (Namer.standard 0) config (config.scope "A.jsx".toList none none []) pair =
        .ok p ∧
      p.edits.map (·.value) = ["test-btn".toList, "test-btn-1".toList] ∧
      ofElements (Namer.standard 0) config
        (config.scope "A.jsx".toList none none
          (existingIds config.attributeName (carryOut pair p.edits))) (carryOut pair p.edits) =
        .ok q ∧
      q.edits = [] ∧ q.conflicts = 1 := by
  intro config pair
  have hrun : (ofElements (Namer.standard 0) config (config.scope "A.jsx".toList none none [])
      pair).toOption.map (fun p => (p.edits.map (·.value), p.conflicts)) =
        some (["test-btn".toList, "test-btn-1".toList], 1) := by decide +kernel
  cases hplan : ofElements (Namer.standard 0) config (config.scope "A.jsx".toList none none [])
      pair with
  | error f =>
      rw [hplan] at hrun
      cases hrun
  | ok p =>
      rw [hplan] at hrun
      obtain ⟨hvalues, hconflicts⟩ := Prod.mk.inj (Option.some.inj hrun)
      obtain ⟨q, hagain, hedits, hcount⟩ := ofElements_again 0 config "A.jsx".toList none none
        pair p rfl rfl (by decide) (by decide +kernel) (by decide) hplan
      exact ⟨p, q, rfl, hvalues, hagain, hedits, hcount.trans hconflicts⟩

end Plan

end MarkupIds
