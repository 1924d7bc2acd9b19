import MarkupIds.Proofs.Engine
import MarkupIds.Proofs.Plan.Edits
import MarkupIds.Proofs.Sfc.FullName

/-!
# Identifiers that a file carries already

Identifiers are reserved for the elements that the reader hands out. One that stands on a tag the
reader passes over, under a later value of the same attribute, or beside a name that the reader
takes for another, can be given again.
-/

namespace MarkupIds

/-! ## Edits that are made were asked for -/

namespace Sfc

theorem mem_applied_step {start : ℕ} {p : Progress} {e t : Edit}
    (h : t ∈ (p.step start e).applied) : t ∈ p.applied ∨ t = e := by
  unfold Progress.step at h
  split at h
  · simpa using h
  · exact .inl h

theorem mem_applied_foldl {start : ℕ} {edits : List Edit} {p : Progress} {t : Edit}
    (h : t ∈ (edits.foldl (Progress.step start) p).applied) : t ∈ p.applied ∨ t ∈ edits := by
  induction edits generalizing p with
  | nil => exact .inl h
  | cons e edits ih =>
      rcases ih h with hstep | hlater
      · rcases mem_applied_step hstep with hp | rfl
        · exact .inl hp
        · exact .inr (by simp)
      · exact .inr (by simp [hlater])

theorem mem_of_mem_revise_applied {source : Text} {edits : List Edit} {t : Edit}
    (h : t ∈ (revise source edits).applied) : t ∈ edits := by
  unfold revise at h
  split at h
  · simp at h
  · split at h
    · simp [Revision.refused] at h
    · dsimp only at h
      split at h
      · simp at h
      · split at h
        · rcases mem_applied_foldl h with hnone | hmem
          · simp at hnone
          · exact List.mem_mergeSort.mp hmem
        · simp [Revision.refused] at h

end Sfc

namespace Script

theorem mem_of_mem_grouped {fuel : ℕ} {edits : List Edit} {t : Edit}
    (h : t ∈ grouped fuel edits) : t ∈ edits := by
  induction fuel generalizing edits with
  | zero => exact h
  | succ fuel ih =>
      cases edits with
      | nil => exact h
      | cons e edits =>
          simp only [grouped, List.partition_eq_filter_filter, List.cons_append, List.mem_cons,
            List.mem_append, List.mem_filter] at h
          rcases h with rfl | h | h
          · simp
          · simp [h.1]
          · have hmem := ih h
            simp only [List.mem_filter] at hmem
            simp [hmem.1]

/-- All edits that wait or have been made are from these. -/
def Progress.Within (edits : List Edit) (p : Progress) : Prop :=
  (∀ t ∈ p.pending, t ∈ edits) ∧ ∀ t ∈ p.applied, t ∈ edits

theorem Progress.within_edit {edits : List Edit} {source : Text} {opening : Node}
    {spot : Position} {p : Progress} {e : Edit} (h : p.Within edits) (he : e ∈ edits) :
    (p.edit source opening spot e).Within edits := by
  unfold Progress.edit
  split
  · refine ⟨h.1, ?_⟩
    intro t ht
    rcases List.mem_append.mp ht with ht | ht
    · exact h.2 t ht
    · obtain rfl : t = e := by simpa using ht
      exact he
  · exact h

theorem Progress.within_foldl_edit {edits here : List Edit} {source : Text} {opening : Node}
    {spot : Position} {p : Progress} (h : p.Within edits) (hhere : ∀ e ∈ here, e ∈ edits) :
    (here.foldl (Progress.edit source opening spot) p).Within edits := by
  induction here generalizing p with
  | nil => exact h
  | cons e here ih =>
      exact ih (within_edit h (hhere e (by simp))) fun t ht => hhere t (by simp [ht])

theorem Progress.within_visit {edits : List Edit} {source : Text} {p : Progress} {n : Node}
    (h : p.Within edits) : (p.visit source n).Within edits := by
  unfold Progress.visit
  split
  · exact h
  · split
    · exact h
    · simp only [List.partition_eq_filter_filter]
      apply within_foldl_edit
      · exact ⟨fun t ht => h.1 t (List.mem_filter.mp ht).1, h.2⟩
      · exact fun t ht => h.1 t (List.mem_filter.mp ht).1

theorem Progress.within_foldl_visit {edits : List Edit} {source : Text} {nodes : List Node}
    {p : Progress} (h : p.Within edits) : (nodes.foldl (Progress.visit source) p).Within edits := by
  induction nodes generalizing p with
  | nil => exact h
  | cons n nodes ih => exact ih (within_visit h)

theorem mem_of_mem_revise_applied {source path : Text} {parser : Parser} {edits : List Edit}
    {t : Edit} (h : t ∈ (revise source edits path parser).applied) : t ∈ edits := by
  unfold revise at h
  split at h
  · simp at h
  · split at h
    · simp [Revision.refused] at h
    · dsimp only at h
      split at h
      · refine (Progress.within_foldl_visit ⟨?_, ?_⟩).2 t h
        · exact fun e he => mem_of_mem_grouped he
        · simp
      · simp [Revision.refused] at h

end Script

/-! ## Tags as they are written -/

/-- An opening tag of a file. -/
structure Tag where
  /-- The attributes with their values, as they stand in the tag and in that order. -/
  written : List (Text × Text)
  /-- The attributes that the reader keeps of the tag. -/
  seen : Attributes
  /-- The reader hands out no element for the tag. -/
  passedOver : Bool
deriving DecidableEq, Repr

/-- The last value that is written for a name. -/
def Tag.value? (tag : Tag) (name : Text) : Option Text :=
  (tag.written.reverse.find? (·.1 == name)).map (·.2)

theorem Tag.exists_value? (tag : Tag) {name value : Text} (h : (name, value) ∈ tag.written) :
    ∃ last, tag.value? name = some last := by
  rw [← Option.isSome_iff_exists, Tag.value?, Option.isSome_map, List.find?_isSome]
  exact ⟨(name, value), List.mem_reverse.mpr h, by simp⟩

namespace Sfc

def OpenTag.toTag (t : OpenTag) : Tag where
  written := t.attributes.map Written.pair
  seen := readAttributes t.attributeText
  passedOver := t.selfClosing

/-- The opening tags on the masked lines of a template. -/
def tags (source : Text) : List Tag :=
  match section? source "template" with
  | some template =>
    ((maskLines false template.lines).map (·.1)).flatMap fun masked =>
      (openTags (masked.length + 1) 0 masked).map fun m => m.2.1.toTag
  | none => []

end Sfc

namespace Script

def Node.toTag (source : Text) (opening : Node) : Tag where
  written := (opening.children.filter (·.kind == .attribute)).map fun n =>
    (n.attributeName source, attributeValue source n)
  seen := attributesOf source opening
  passedOver := !(opening.name?.any fun name =>
    name.kind == .tagName && !(name.textIn source).isEmpty)

/-- The opening tags of a script, those with compound names and those that close themselves
among them. -/
def tags (source path : Text) (parser : Parser) : List Tag :=
  match parser.tree? source path with
  | some tree => ((Node.elementsOf tree).filterMap Node.opening?).map (Node.toTag source)
  | none => []

end Script

def Framework.tags (f : Framework) (source path : Text) (parser : Script.Parser) : List Tag :=
  match f with
  | .react => Script.tags source path parser
  | .vue => Sfc.tags source

/-- The reader finds something else for `name` in the tag than its last value, as it takes a name
that is no full name for another one. -/
def Framework.Misreads (f : Framework) (tag : Tag) (name : Text) : Prop :=
  f = .vue ∧ (∃ p ∈ tag.written, Sfc.isFullName p.1 = false) ∧
    tag.seen.get? name ≠ tag.value? name

namespace Attributes

/-- The value that counts is the last one that is written. -/
theorem get?_foldl_set (written : List (Text × Text)) (name : Text) :
    get? (written.foldl (fun attrs (n, v) => set attrs n v) []) name =
      (written.reverse.find? (·.1 == name)).map (·.2) := by
  induction written using List.reverseRecOn with
  | nil => rfl
  | append_singleton written p ih =>
      obtain ⟨n, v⟩ := p
      rw [List.foldl_append, List.foldl_cons, List.foldl_nil, get?_set, ih]
      cases hname : n == name <;> simp [hname]

theorem get?_foldl_set_of_last {front back : List (Text × Text)} {name value : Text}
    (h : ∀ p ∈ back, p.1 ≠ name) :
    get? ((front ++ (name, value) :: back).foldl (fun attrs (n, v) => set attrs n v) []) name =
      some value := by
  have hnone : back.reverse.find? (·.1 == name) = none := by
    rw [List.find?_eq_none]
    intro p hp
    simpa using h p (List.mem_reverse.mp hp)
  rw [get?_foldl_set]
  simp [hnone]

end Attributes

/-! ## Tags and elements -/

theorem Sfc.exists_mem_elementsFrom {lines : List Text} {masked : Text} (hmasked : masked ∈ lines)
    {column : ℕ} {t : OpenTag} {after : Text}
    (ht : (column, t, after) ∈ openTags (masked.length + 1) 0 masked)
    (hopen : t.selfClosing = false) (line offset : ℕ) :
    ∃ e ∈ elementsFrom line offset lines, e.attributes = readAttributes t.attributeText := by
  induction lines generalizing line offset with
  | nil => exact absurd hmasked (by simp)
  | cons first lines ih =>
      rw [elementsFrom]
      rcases List.mem_cons.mp hmasked with rfl | hlater
      · refine ⟨_, List.mem_append_left _ (List.mem_map.mpr ⟨(column, t, after), ?_, rfl⟩), rfl⟩
        exact List.mem_filter.mpr ⟨ht, by simp [hopen]⟩
      · obtain ⟨e, he, hattrs⟩ := ih hlater (line + 1) (offset + first.length + 1)
        exact ⟨e, List.mem_append_right _ he, hattrs⟩

theorem Script.exists_elementOf? {source : Text} {n opening : Node}
    (hopening : n.opening? = some opening) (hnamed : (opening.toTag source).passedOver = false) :
    ∃ e, elementOf? source n = some e ∧ e.attributes = attributesOf source opening := by
  rw [elementOf?, hopening]
  cases hname : opening.name? with
  | none => simp [Node.toTag, hname] at hnamed
  | some name =>
      have hplain : (name.kind == .tagName && !(name.textIn source).isEmpty) = true := by
        simpa [Node.toTag, hname] using hnamed
      simp only [hname, hplain, if_true]
      exact ⟨_, rfl, rfl⟩

theorem Script.attributesOf_eq (source : Text) (opening : Node) :
    attributesOf source opening =
      (opening.toTag source).written.foldl (fun attrs (n, v) => Attributes.set attrs n v) [] := by
  rw [attributesOf, Node.toTag, List.foldl_map]

/-- Where all names are full, the reader keeps the last value of each attribute. -/
theorem Sfc.get?_readAttributes {t : OpenTag} (ht : t.Sound)
    (hfull : ∀ p ∈ t.toTag.written, isFullName p.1 = true) (name : Text) :
    Attributes.get? (readAttributes t.attributeText) name = t.toTag.value? name := by
  have hnames : ∀ w ∈ t.attributes, isFullName w.name = true :=
    fun w hw => hfull w.pair (List.mem_map_of_mem hw)
  have hread : readAttributes t.attributeText =
      t.toTag.written.foldl (fun attrs (n, v) => Attributes.set attrs n v) [] := by
    rw [OpenTag.attributeText, readAttributes_flatMap ht.attributes hnames, OpenTag.toTag,
      List.foldl_map]
  rw [hread]
  exact Attributes.get?_foldl_set _ name

theorem Sfc.exists_openTag {source : Text} {tag : Tag} (htag : tag ∈ tags source) :
    ∃ template, section? source "template" = some template ∧
      ∃ masked ∈ (maskLines false template.lines).map (·.1), ∃ column t after,
        (column, t, after) ∈ openTags (masked.length + 1) 0 masked ∧ t.toTag = tag := by
  rw [tags] at htag
  cases htemplate : section? source "template" with
  | none => simp [htemplate] at htag
  | some template =>
      simp only [htemplate, List.mem_flatMap, List.mem_map] at htag
      obtain ⟨masked, hmasked, ⟨column, t, after⟩, ht, rfl⟩ := htag
      exact ⟨template, rfl, masked, List.mem_map.mpr hmasked, column, t, after, ht, rfl⟩

theorem Script.exists_node {source path : Text} {parser : Parser} {tag : Tag}
    (htag : tag ∈ tags source path parser) :
    ∃ tree, parser.tree? source path = some tree ∧ ∃ n ∈ Node.elementsOf tree, ∃ opening,
      n.opening? = some opening ∧ opening.toTag source = tag := by
  rw [tags] at htag
  cases htree : parser.tree? source path with
  | none => simp [htree] at htag
  | some tree =>
      simp only [htree, List.mem_map, List.mem_filterMap] at htag
      obtain ⟨opening, ⟨n, hn, hopening⟩, rfl⟩ := htag
      exact ⟨tree, rfl, n, hn, opening, hopening, rfl⟩

/-- A tag that is not passed over is an element, with the attributes that are kept of it. -/
theorem exists_element_of_tag {f : Framework} {source path : Text} {parser : Script.Parser}
    {tag : Tag} (htag : tag ∈ f.tags source path parser) (hkept : tag.passedOver = false) :
    ∃ e ∈ (f.read source path parser).elements, e.attributes = tag.seen := by
  cases f with
  | vue =>
      obtain ⟨template, htemplate, masked, hmasked, column, t, after, ht, rfl⟩ :=
        Sfc.exists_openTag htag
      obtain ⟨e, he, hattrs⟩ := Sfc.exists_mem_elementsFrom hmasked ht hkept template.startLine
        (Sfc.lineStart source template.startLine)
      refine ⟨e, ?_, hattrs⟩
      rw [Framework.read, Sfc.read, htemplate]
      exact he
  | react =>
      obtain ⟨tree, htree, n, hn, opening, hopening, rfl⟩ := Script.exists_node htag
      obtain ⟨e, he, hattrs⟩ := Script.exists_elementOf? hopening hkept
      refine ⟨e, ?_, hattrs⟩
      simp only [Framework.read, Script.read, htree, List.mem_filterMap]
      exact ⟨n, hn, he⟩

/-- The last value of an attribute is what the reader keeps of it, unless it misreads the tag. -/
theorem get?_seen_or_misreads {f : Framework} {source path : Text} {parser : Script.Parser}
    {tag : Tag} (htag : tag ∈ f.tags source path parser) (name : Text) :
    tag.seen.get? name = tag.value? name ∨ f.Misreads tag name := by
  cases f with
  | vue =>
      obtain ⟨_, _, _, _, _, t, _, ht, rfl⟩ := Sfc.exists_openTag htag
      obtain ⟨_, _, _, hsound⟩ := Sfc.exists_of_mem_openTags ht
      by_cases hfull : ∀ p ∈ t.toTag.written, Sfc.isFullName p.1 = true
      · exact .inl (Sfc.get?_readAttributes hsound hfull name)
      · refine or_iff_not_imp_left.mpr fun hother => ⟨rfl, ?_, hother⟩
        simpa using hfull
  | react =>
      obtain ⟨_, _, _, _, opening, _, rfl⟩ := Script.exists_node htag
      refine .inl ?_
      rw [Tag.value?, ← Attributes.get?_foldl_set, ← Script.attributesOf_eq]
      rfl

/-! ## Collisions -/

/-- What a complete run writes was planned. -/
theorem Completed.mem_edits {namer : Namer} {config : Config} {component : Option Text}
    {source path : Text} {parser : Script.Parser} {f : Framework} {plan : Plan} {done : Revision}
    (h : Completed namer config component source path parser f plan done) {t : Edit}
    (ht : t ∈ (process namer config component source path parser).edits) : t ∈ plan.edits := by
  rw [h.edits, h.revised] at ht
  split at ht
  · simp at ht
  · cases f with
    | react => exact Script.mem_of_mem_revise_applied ht
    | vue => exact Sfc.mem_of_mem_revise_applied ht

/-- An identifier that is given although a tag of the file carries it stands on a tag that is
passed over, in front of another value of the same attribute, on a tag in which the attribute is
misread, or is empty under a negative limit. -/
theorem generated_collides (clock : ℕ) (config : Config) (component : Option Text)
    (source path : Text) (parser : Script.Parser)
    (hsuccess :
      (process (Namer.standard clock) config component source path parser).success = true) :
    ∃ f, Framework.forPath? path = some f ∧
      ∀ id ∈ (process (Namer.standard clock) config component source path parser).generatedIds,
      ∀ tag ∈ f.tags source path parser, (config.attributeName, id) ∈ tag.written →
        tag.passedOver = true ∨
          (∃ last, last ≠ id ∧ tag.value? config.attributeName = some last) ∨
          f.Misreads tag config.attributeName ∨ id = [] ∧ config.limit < 0 := by
  obtain ⟨f, plan, done, hdone⟩ := process_completed hsuccess
  refine ⟨f, hdone.framework, ?_⟩
  intro id hid tag htag hwritten
  obtain ⟨t, ht, rfl⟩ := List.mem_map.mp hid
  have hplanned := hdone.mem_edits ht
  obtain ⟨trace, htrace, hreplay⟩ := Plan.ofElements_eq_ok_iff.mp hdone.planned
  rw [← hreplay, Plan.edits_replay, List.nil_append] at hplanned
  have hfresh := (htrace.edits_fresh (Namer.standard_fresh clock)).2 t hplanned
  obtain ⟨last, hlast⟩ := tag.exists_value? hwritten
  by_contra hnone
  simp only [not_or, not_exists, Bool.not_eq_true, not_and, not_lt] at hnone
  obtain ⟨hkept, hover, hread, hempty⟩ := hnone
  have hvalue : tag.value? config.attributeName = some t.value := by
    by_contra hdiffer
    refine hover last ?_ hlast
    rintro rfl
    exact hdiffer hlast
  obtain ⟨e, he, hattrs⟩ := exists_element_of_tag htag hkept
  have hseen := (get?_seen_or_misreads htag config.attributeName).resolve_right hread
  have hne : t.value ≠ [] := by
    intro hnil
    have hlimit : ∀ m, (fileScope config component f source path parser).limit = some m →
        0 ≤ m := by
      intro m hm
      obtain rfl : config.limit = m := Option.some.inj hm
      exact hempty hnil
    obtain ⟨a, ha, hedit⟩ := List.mem_filterMap.mp hplanned
    apply htrace.values_ne_nil hlimit a ha
    rw [← (Plan.Award.edit?_eq_some hedit).2.2.1, hnil]
  refine hfresh (mem_existingIds he ?_ hne)
  rw [Element.attribute?, hattrs, hseen, hvalue]

/-- A value behind a name that is misread is not reserved. -/
example :
    let source :=
      "<template>\n<p :[k]=\"v=\" data-testid=\"test-app-btn\">x</p>\n".toList ++
        "<button>Go</button>\n</template>".toList
    let o := process (Namer.standard 0) {} none source "App.vue".toList .bundled
    o.generatedIds = ["test-app-btn".toList] ∧
      ∃ tag ∈ Framework.vue.tags source "App.vue".toList .bundled, tag.passedOver = false ∧
        tag.value? "data-testid".toList = some "test-app-btn".toList ∧
          tag.seen.get? "data-testid".toList = none := by
  decide +kernel

/-- A template in which a self-closing field carries the identifier that the button asks for. -/
def fieldAndButton : Text :=
  "<template>\n<input data-testid=\"test-app-btn\" />\n<button>Go</button>\n</template>\n".toList

theorem process_fieldAndButton :
    let o := process (Namer.standard 0) {} none fieldAndButton "App.vue".toList .bundled
    o.success = true ∧ o.generatedIds = ["test-app-btn".toList] := by
  decide +kernel

/-- The identifier of a self-closing tag is given again. -/
theorem generated_collides_selfClosing :
    let o := process (Namer.standard 0) {} none fieldAndButton "App.vue".toList .bundled
    o.success = true ∧ ∃ id ∈ o.generatedIds,
      ∃ tag ∈ Framework.vue.tags fieldAndButton "App.vue".toList .bundled,
        ("data-testid".toList, id) ∈ tag.written := by
  intro o
  obtain ⟨hsuccess, hids⟩ := process_fieldAndButton
  refine ⟨hsuccess, "test-app-btn".toList, ?_, by decide⟩
  rw [show o.generatedIds = _ from hids]
  exact List.mem_singleton_self _

/-- The tags that carry the identifier of the button are passed over, carry another one or are
misread. -/
theorem generated_collides_field :
    let o := process (Namer.standard 0) {} none fieldAndButton "App.vue".toList .bundled
    o.success = true ∧ ∀ tag ∈ Framework.vue.tags fieldAndButton "App.vue".toList .bundled,
      ("data-testid".toList, "test-app-btn".toList) ∈ tag.written →
        tag.passedOver = true ∨
          (∃ last, last ≠ "test-app-btn".toList ∧
            tag.value? "data-testid".toList = some last) ∨
          Framework.vue.Misreads tag "data-testid".toList := by
  intro o
  obtain ⟨hsuccess, hids⟩ := process_fieldAndButton
  refine ⟨hsuccess, fun tag htag hwritten => ?_⟩
  obtain ⟨f, hframework, hcases⟩ :=
    generated_collides 0 {} none fieldAndButton "App.vue".toList .bundled hsuccess
  have hvue : Framework.forPath? "App.vue".toList = some .vue := by decide
  obtain rfl : .vue = f := Option.some.inj (hvue.symm.trans hframework)
  rw [hids] at hcases
  rcases hcases _ (List.mem_singleton_self _) tag htag hwritten with
    hpassed | hlast | hmisread | hempty
  · exact .inl hpassed
  · exact .inr (.inl hlast)
  · exact .inr (.inr hmisread)
  · exact absurd hempty.2 (by decide)

end MarkupIds
