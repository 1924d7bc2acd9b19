import MarkupIds.Proofs.Collision
import MarkupIds.Proofs.Position
import MarkupIds.Proofs.Script.Spans
import MarkupIds.Proofs.Splice

/-!
# Attributes added to scripts

With existing identifiers preserved, every planned edit adds an attribute to a tag that lacks it.
Elements are found again by line and column, and no two have both in common, so each attribute
comes in behind the last part of its own opening tag.
-/

namespace MarkupIds.Script

/-! ## Lines and columns -/

/-- Line and column determine the offset. -/
theorem sameSpot_ofOffset {source : Text} {i j : ℕ} (hlt : i < j) (hj : j ≤ source.length) :
    sameSpot (.ofOffset source i) (.ofOffset source j) = false := by
  have hi := Position.ofOffset_isAt (hlt.le.trans hj)
  rw [sameSpot, Bool.and_eq_false_iff, beq_eq_false_iff_ne, beq_eq_false_iff_ne]
  exact hi.spot_ne (Position.ofOffset_isAt hj) hlt hj

/-! ## Elements of nodes -/

/-- What a node with an element looks like. -/
theorem elementOf?_cases {source : Text} {n : Node} {e : Element}
    (h : elementOf? source n = some e) :
    ∃ opening name, n.opening? = some opening ∧ opening.name? = some name ∧
      name.kind = .tagName ∧ e.tag ≠ [] ∧ e.tag = name.textIn source ∧
      e.attributes = attributesOf source opening ∧
      e.position = some (.ofOffset source n.start) := by
  unfold elementOf? at h
  split at h
  · cases h
  · rename_i opening hopening
    split at h
    · cases h
    · rename_i name hname
      dsimp only at h
      split at h
      · rename_i hplain
        rw [Bool.and_eq_true, beq_iff_eq, Bool.not_eq_true', List.isEmpty_eq_false_iff] at hplain
        obtain rfl := Option.some.inj h
        exact ⟨opening, name, hopening, hname, hplain.1, hplain.2, rfl, rfl, rfl⟩
      · cases h

theorem position_of_elementOf? {source : Text} {n : Node} {e : Element}
    (h : elementOf? source n = some e) : e.position = some (.ofOffset source n.start) := by
  obtain ⟨_, _, _, _, _, _, _, _, hposition⟩ := elementOf?_cases h
  exact hposition

theorem has_of_mem_written {written : List (Text × Text)} {name value : Text}
    (h : (name, value) ∈ written) :
    Attributes.has (written.foldl (fun attrs (n, v) => Attributes.set attrs n v) []) name =
      true := by
  rw [← Attributes.isSome_get?, Attributes.get?_foldl_set, Option.isSome_iff_exists]
  exact Tag.exists_value? ⟨written, [], false⟩ h

/-! ## Additions -/

/-- An edit that adds an attribute, with the node of its element, the node's opening tag and the
last part of the tag. -/
structure Addition (source : Text) where
  node : Node
  opening : Node
  last : Node
  edit : Edit
  opening_eq : node.opening? = some opening
  last_eq : opening.children.getLast? = some last
  element_eq : elementOf? source node = some edit.element
  position_eq : edit.position = .ofOffset source node.start
  kind_eq : edit.kind = .add
  missing : Attributes.has edit.element.attributes edit.name = false
  quoteless : '"' ∉ edit.value

theorem locate_of_missing {source name : Text} {parts : List Node}
    (h : ∀ n ∈ parts, n.kind = .attribute → n.attributeName source ≠ name)
    (previous : Option Node) :
    locate source name previous parts = (parts.getLast?.or previous, none) := by
  induction parts generalizing previous with
  | nil => rfl
  | cons n parts ih =>
      have hother : (n.kind == .attribute && n.attributeName source == name) = false := by
        rw [Bool.and_eq_false_iff, beq_eq_false_iff_ne, beq_eq_false_iff_ne]
        by_cases hkind : n.kind = .attribute
        · exact .inr (h n (by simp) hkind)
        · exact .inl hkind
      rw [locate, if_neg (by simp [hother]), ih fun m hm => h m (by simp [hm])]
      rw [List.getLast?_cons]
      cases parts.getLast? <;> rfl

namespace Addition

variable {source : Text}

/-- The attribute comes in behind the last part of the opening tag. -/
def splice (a : Addition source) : Splice :=
  ⟨a.last.stop, a.last.stop, ' ' :: a.edit.name ++ "=\"".toList ++ a.edit.value ++ ['"']⟩

theorem attributes_eq (a : Addition source) :
    a.edit.element.attributes = attributesOf source a.opening := by
  obtain ⟨opening, _, hopening, _, _, _, _, hattributes, _⟩ := elementOf?_cases a.element_eq
  obtain rfl := Option.some.inj (hopening.symm.trans a.opening_eq)
  exact hattributes

theorem spliceFor_eq (a : Addition source) :
    spliceFor source a.opening a.edit = .ok a.splice := by
  have hmissing : ∀ n ∈ a.opening.children, n.kind = .attribute →
      n.attributeName source ≠ a.edit.name := by
    rintro n hn hkind hname
    have hwritten : (a.edit.name, attributeValue source n) ∈ (a.opening.toTag source).written :=
      List.mem_map.mpr ⟨n, List.mem_filter.mpr ⟨hn, by simp [hkind]⟩, by rw [hname]⟩
    have hhas := has_of_mem_written hwritten
    rw [← attributesOf_eq, ← a.attributes_eq, a.missing] at hhas
    exact Bool.false_ne_true hhas
  have hrender : renderAttribute a.edit.name a.edit.value =
      a.edit.name ++ "=\"".toList ++ a.edit.value ++ ['"'] := by
    simp [renderAttribute, renderValue, a.quoteless]
  rw [spliceFor, locate_of_missing hmissing, a.last_eq]
  simp only [Option.some_or, a.kind_eq, hrender]
  rfl

theorem splice_insertsInto (a : Addition source) (h : a.node.Nested)
    (hstop : a.node.stop ≤ source.length) : a.splice.InsertsInto source := by
  obtain ⟨hopening, _, hend⟩ := h.of_mem_children (List.mem_of_find?_eq_some a.opening_eq)
  obtain ⟨_, _, hlast⟩ := hopening.of_mem_children (List.mem_of_getLast? a.last_eq)
  exact ⟨rfl, (hlast.trans hend).trans hstop⟩

end Addition

/-! ## Visits -/

/-- The nodes start one behind the other in the source. -/
structure Staggered (source : Text) (nodes : List Node) : Prop where
  starts : nodes.Pairwise (·.start < ·.start)
  inside : ∀ n ∈ nodes, n.start ≤ source.length

theorem Parser.Ordered.staggered {parser : Parser} (hordered : parser.Ordered)
    (hdistinct : parser.Distinct) {source path : Text} {tree : List Node}
    (h : parser.tree? source path = some tree) : Staggered source (Node.elementsOf tree) := by
  refine ⟨hordered.starts_lt hdistinct h, fun n hn => ?_⟩
  obtain ⟨hnested, _, hstop⟩ := (hordered.tree_nested h).of_mem_elementsOf hn
  exact hnested.start_le_stop.trans hstop

section Visits

variable {source : Text} {n : Node} {nodes : List Node}

theorem Staggered.tail (h : Staggered source (n :: nodes)) : Staggered source nodes :=
  ⟨(List.pairwise_cons.mp h.starts).2, fun m hm => h.inside m (by simp [hm])⟩

/-- An edit for a later node has another spot. -/
theorem Staggered.sameSpot_eq_false (h : Staggered source (n :: nodes)) {a : Addition source}
    (ha : a.node ∈ nodes) : sameSpot (.ofOffset source n.start) a.edit.position = false := by
  rw [a.position_eq]
  exact sameSpot_ofOffset ((List.pairwise_cons.mp h.starts).1 a.node ha)
    (h.inside a.node (by simp [ha]))

theorem partition_of_forall {edits : List Edit} {q : Edit → Bool} (h : ∀ t ∈ edits, q t = false) :
    edits.partition q = ([], edits) := by
  have hnone : edits.filter q = [] := List.filter_eq_nil_iff.mpr fun t ht => by simp [h t ht]
  have hall : edits.filter (not ∘ q) = edits := List.filter_eq_self.mpr fun t ht => by simp [h t ht]
  rw [List.partition_eq_filter_filter, hnone, hall]

theorem Staggered.partition_later (h : Staggered source (n :: nodes))
    {additions : List (Addition source)} (hlater : (additions.map (·.node)).Sublist nodes) :
    (additions.map (·.edit)).partition (sameSpot (.ofOffset source n.start) ·.position) =
      ([], additions.map (·.edit)) := by
  apply partition_of_forall
  intro t ht
  obtain ⟨a, ha, rfl⟩ := List.mem_map.mp ht
  exact h.sameSpot_eq_false (hlater.mem (List.mem_map_of_mem ha))

/-- A node that no edit waits for changes nothing. -/
theorem Progress.visit_passing (h : Staggered source (n :: nodes))
    {additions : List (Addition source)} (hlater : (additions.map (·.node)).Sublist nodes)
    {p : Progress} (hpending : p.pending = additions.map (·.edit)) :
    p.visit source n = p := by
  unfold Progress.visit
  split
  · rfl
  · split
    · rfl
    · simp only [hpending, h.partition_later hlater, List.foldl_nil]
      rw [← hpending]

/-- At the node of the first edit that waits, this edit is made and no other. -/
theorem Progress.visit_addition {a : Addition source} (h : Staggered source (a.node :: nodes))
    {additions : List (Addition source)} (hlater : (additions.map (·.node)).Sublist nodes)
    {p : Progress} (hpending : p.pending = (a :: additions).map (·.edit)) :
    p.visit source a.node =
      { p with
        pending := additions.map (·.edit)
        splices := p.splices ++ [a.splice]
        applied := p.applied ++ [a.edit] } := by
  have hself : sameSpot (.ofOffset source a.node.start) a.edit.position = true := by
    simp [a.position_eq, sameSpot]
  have hpartition : p.pending.partition (sameSpot (.ofOffset source a.node.start) ·.position) =
      ([a.edit], additions.map (·.edit)) := by
    have hrest := h.partition_later hlater
    rw [List.partition_eq_filter_filter, Prod.mk.injEq] at hrest
    rw [hpending, List.map_cons, List.partition_eq_filter_filter, List.filter_cons,
      List.filter_cons, hrest.1, hrest.2]
    simp [hself]
  have hwaits : p.pending.isEmpty = false := by simp [hpending]
  rw [Progress.visit, hwaits, a.opening_eq]
  simp only [Bool.false_eq_true, if_false, hpartition, List.foldl_cons, List.foldl_nil,
    Progress.edit, a.spliceFor_eq]

/-- A walk over the nodes makes every addition, in order. -/
theorem Progress.visits_eq (h : Staggered source nodes) {additions : List (Addition source)}
    (hnodes : (additions.map (·.node)).Sublist nodes) {p : Progress}
    (hpending : p.pending = additions.map (·.edit)) :
    nodes.foldl (Progress.visit source) p =
      { p with
        pending := []
        splices := p.splices ++ additions.map (·.splice)
        applied := p.applied ++ additions.map (·.edit) } := by
  induction nodes generalizing additions p with
  | nil =>
      obtain rfl : additions = [] := by simpa using hnodes
      obtain ⟨pending, splices, applied, diagnostics⟩ := p
      obtain rfl : pending = [] := hpending
      simp
  | cons n nodes ih =>
      rw [List.foldl_cons]
      rcases List.sublist_cons_iff.mp hnodes with hlater | ⟨rest, hfirst, hlater⟩
      · rw [Progress.visit_passing h hlater hpending]
        exact ih h.tail hlater hpending
      · cases additions with
        | nil => cases hfirst
        | cons a additions =>
            obtain ⟨rfl, rfl⟩ := List.cons.inj hfirst
            rw [Progress.visit_addition h hlater hpending, ih h.tail hlater rfl]
            simp

theorem grouped_of_distinct {edits : List Edit}
    (h : edits.Pairwise fun s t => sameSpot s.position t.position = false) (fuel : ℕ) :
    grouped fuel edits = edits := by
  induction fuel generalizing edits with
  | zero => rfl
  | succ fuel ih =>
      cases edits with
      | nil => rfl
      | cons e edits =>
          obtain ⟨hhead, htail⟩ := List.pairwise_cons.mp h
          simp only [grouped, partition_of_forall hhead, ih htail]
          rfl

theorem Staggered.edits_distinct (h : Staggered source nodes) {additions : List (Addition source)}
    (hnodes : (additions.map (·.node)).Sublist nodes) :
    (additions.map (·.edit)).Pairwise fun s t => sameSpot s.position t.position = false := by
  have hstarts := h.starts.sublist hnodes
  rw [List.pairwise_map] at hstarts ⊢
  refine hstarts.imp_of_mem ?_
  intro a b _ hb hlt
  rw [a.position_eq, b.position_eq]
  exact sameSpot_ofOffset hlt (h.inside b.node (hnodes.mem (List.mem_map_of_mem hb)))

end Visits

/-- A revision carries out what a walk over the elements has planned. -/
theorem revise_eq {parser : Parser} {source path : Text} {tree : List Node}
    (htree : parser.tree? source path = some tree) {edits : List Edit} (hne : edits ≠ [])
    {done : Progress}
    (hdone : (Node.elementsOf tree).foldl (Progress.visit source)
      { pending := grouped edits.length edits } = done) :
    revise source edits path parser =
      let made := Splice.applyAll source done.splices
      if (parser.tree? made.1 path).isSome then
        { code := made.1
          diagnostics := done.diagnostics ++ done.pending.map unmatched ++
            made.2.map (overlapping source)
          applied := done.applied }
      else .refused source "Transform error: rewritten source failed to parse".toList := by
  rw [revise, if_neg (by simpa using hne), htree]
  simp only [hdone]

/-- The source with the attributes of all additions. -/
def withAdditions {source : Text} (additions : List (Addition source)) : Text :=
  Splice.insertFrom (additions.map (·.splice)) 0 source

/-- Additions to the elements of a script are all made, unless the script is not clean with
them. -/
theorem revise_additions {parser : Parser} (hordered : parser.Ordered)
    (hdistinct : parser.Distinct) {source path : Text} {tree : List Node}
    (htree : parser.tree? source path = some tree) {additions : List (Addition source)}
    (hnodes : (additions.map (·.node)).Sublist (Node.elementsOf tree)) :
    revise source (additions.map (·.edit)) path parser =
      if (parser.tree? (withAdditions additions) path).isSome then
        { code := withAdditions additions, applied := additions.map (·.edit) }
      else .refused source "Transform error: rewritten source failed to parse".toList := by
  have hstaggered := hordered.staggered hdistinct htree
  have hinsert : ∀ s ∈ additions.map (·.splice), s.InsertsInto source := by
    intro s hs
    obtain ⟨a, ha, rfl⟩ := List.mem_map.mp hs
    obtain ⟨hnested, _, hstop⟩ := (hordered.tree_nested htree).of_mem_elementsOf
      (hnodes.mem (List.mem_map_of_mem ha))
    exact a.splice_insertsInto hnested hstop
  have hvisits := Progress.visits_eq hstaggered hnodes
    (p := { pending := additions.map (·.edit) }) rfl
  by_cases hempty : additions = []
  · subst hempty
    have hsame : withAdditions ([] : List (Addition source)) = source :=
      Splice.insertFrom_of_lt (by simp) source
    rw [hsame, htree]
    rfl
  · rw [revise_eq htree (by simpa using hempty)
      (by rw [grouped_of_distinct (hstaggered.edits_distinct hnodes), hvisits])]
    simp only [List.nil_append, Splice.applyAll_insertions hinsert, List.map_nil]
    rfl

/-! ## Planned additions -/

section Planned

open Plan

variable {clock : ℕ} {config : Config} {scope : Scope} {source : Text}

/-- What is awarded to the element of a node is added to the node. -/
theorem exists_addition (hpreserve : config.preserveExisting = true) {n : Node} {e : Element}
    (hn : elementOf? source n = some e) {taken : List Text} {place : Position} {base value : Text}
    (heligible : eligible config e = .ok true) (hposition : e.position = some place)
    (hbase : Naming.propose config.rules { scope with taken } e = .ok base)
    (hvalue : Naming.settle clock scope.limit (others config taken e) base = .ok value) :
    ∃ a : Addition source, a.node = n ∧
      a.edit = ⟨.add, e, config.attributeName, value, place⟩ := by
  obtain ⟨opening, name, hopening, hname, _, _, _, _, hstart⟩ := elementOf?_cases hn
  have hfilled : opening.children ≠ [] := List.ne_nil_of_mem (List.mem_of_find?_eq_some hname)
  have hlast := List.getLast?_eq_some_getLast hfilled
  have hplace : place = .ofOffset source n.start := Option.some.inj (hposition.symm.trans hstart)
  have hquoteless : '"' ∉ value := fun hquote =>
    absurd (Naming.settled_isIdText hbase hvalue _ hquote) (by decide)
  exact ⟨⟨n, opening, _, ⟨.add, e, config.attributeName, value, place⟩, hopening, hlast, hn,
    hplace, rfl, not_has_of_eligible hpreserve heligible, hquoteless⟩, rfl, rfl⟩

/-- The edits of a trace over the elements of some nodes are additions to these nodes. -/
theorem exists_additions (hpreserve : config.preserveExisting = true) {nodes : List Node}
    {taken : List Text} {trace : List Event}
    (h : Trace (Namer.standard clock) config scope taken (nodes.filterMap (elementOf? source))
      trace) :
    ∃ additions : List (Addition source), (additions.map (·.node)).Sublist nodes ∧
      additions.map (·.edit) = editsOf config trace := by
  induction nodes generalizing taken trace with
  | nil =>
      cases h
      exact ⟨[], .slnil, rfl⟩
  | cons n nodes ih =>
      cases hn : elementOf? source n with
      | none =>
          rw [List.filterMap_cons_none hn] at h
          obtain ⟨additions, hnodes, hedits⟩ := ih h
          exact ⟨additions, hnodes.cons n, hedits⟩
      | some e =>
          rw [List.filterMap_cons_some hn] at h
          cases h with
          | passed _ hrest =>
              obtain ⟨additions, hnodes, hedits⟩ := ih hrest
              exact ⟨additions, hnodes.cons n, hedits⟩
          | unplaced _ hposition _ =>
              have hn := position_of_elementOf? hn
              rw [hposition] at hn
              cases hn
          | awarded heligible hposition hbase hvalue hrest =>
              obtain ⟨additions, hnodes, hedits⟩ := ih hrest
              obtain ⟨a, rfl, hedit⟩ :=
                exists_addition hpreserve hn heligible hposition hbase hvalue
              refine ⟨a :: additions, hnodes.cons_cons _, ?_⟩
              rw [editsOf_awarded (not_has_of_eligible hpreserve heligible), List.map_cons, hedit,
                hedits]

end Planned

/-! ## A second pass -/

/-- What a reader sees of an opening tag: the kind and the text of its name, and the attributes as
they are written. -/
structure Label where
  name : Option (Kind × Text)
  written : List (Text × Text)
deriving DecidableEq, Repr

def Label.extend (l : Label) (added : List (Text × Text)) : Label :=
  { l with written := l.written ++ added }

def Node.label? (source : Text) (n : Node) : Option Label :=
  n.opening?.map fun opening =>
    ⟨opening.name?.map fun name => (name.kind, name.textIn source),
      (opening.toTag source).written⟩

/-- The attributes that edits add to a node. -/
def addedTo (source : Text) (edits : List Edit) (n : Node) : List (Text × Text) :=
  (edits.filter (·.position == .ofOffset source n.start)).map fun t => (t.name, t.value)

/-- The new tree has the tags of the old one, with the attributes that the edits add. -/
def Appended (source : Text) (tree : List Node) (edits : List Edit) (code : Text)
    (newTree : List Node) : Prop :=
  (Node.elementsOf newTree).map (Node.label? code) =
    (Node.elementsOf tree).map fun n => (n.label? source).map (·.extend (addedTo source edits n))

instance (source : Text) (tree : List Node) (edits : List Edit) (code : Text)
    (newTree : List Node) : Decidable (Appended source tree edits code newTree) :=
  inferInstanceAs (Decidable (_ = _))

theorem label?_of_elementOf? {source : Text} {n : Node} {e : Element}
    (h : elementOf? source n = some e) :
    ∃ written, n.label? source = some ⟨some (.tagName, e.tag), written⟩ ∧ e.tag ≠ [] ∧
      e.attributes = written.foldl (fun attrs (n, v) => Attributes.set attrs n v) [] := by
  obtain ⟨opening, name, hopening, hname, hkind, hfilled, htag, hattributes, _⟩ :=
    elementOf?_cases h
  refine ⟨(opening.toTag source).written, ?_, hfilled,
    hattributes.trans (attributesOf_eq source opening)⟩
  simp [Node.label?, hopening, hname, hkind, htag]

theorem elementOf?_of_label? {source tag : Text} {n : Node} {written : List (Text × Text)}
    (hfilled : tag ≠ []) (h : n.label? source = some ⟨some (.tagName, tag), written⟩) :
    ∃ e, elementOf? source n = some e ∧ e.tag = tag ∧
      e.attributes = written.foldl (fun attrs (n, v) => Attributes.set attrs n v) [] := by
  obtain ⟨opening, hopening, hlabel⟩ := Option.map_eq_some_iff.mp h
  obtain ⟨hpair, rfl⟩ := Label.mk.inj hlabel
  obtain ⟨name, hname, hpair⟩ := Option.map_eq_some_iff.mp hpair
  obtain ⟨hkind, rfl⟩ := Prod.mk.inj hpair
  have hplain : (name.kind == .tagName && !(name.textIn source).isEmpty) = true := by
    simp [hkind, hfilled]
  rw [elementOf?, hopening]
  simp only [hname, hplain, if_true]
  exact ⟨_, rfl, rfl, attributesOf_eq source opening⟩

theorem read_of_tree? {parser : Parser} {source path : Text} {tree : List Node}
    (h : parser.tree? source path = some tree) :
    (read source path parser).elements = (Node.elementsOf tree).filterMap (elementOf? source) ∧
      (read source path parser).failed = false := by
  rw [read, h]
  exact ⟨rfl, rfl⟩

/-- An element that planning has seen is passed over, or gets an edit if it has a place. -/
theorem exists_edit_or_ineligible {namer : Namer} {config : Config} {scope : Scope}
    {taken : List Text} {es : List Element} {trace : List Plan.Event}
    (hpreserve : config.preserveExisting = true)
    (h : Plan.Trace namer config scope taken es trace) {e : Element} (he : e ∈ es)
    {place : Position} (hplace : e.position = some place) :
    eligible config e = .ok false ∨
      ∃ t ∈ Plan.editsOf config trace, t.position = place := by
  induction h with
  | nil taken => cases he
  | passed heligible _ ih =>
      rcases List.mem_cons.mp he with rfl | he
      · exact .inl heligible
      · exact ih he
  | unplaced _ hposition _ ih =>
      rcases List.mem_cons.mp he with rfl | he
      · rw [hposition] at hplace
        cases hplace
      · exact ih he
  | awarded heligible hposition _ _ _ ih =>
      rw [Plan.editsOf_awarded (not_has_of_eligible hpreserve heligible)]
      rcases List.mem_cons.mp he with rfl | he
      · exact .inr ⟨_, List.mem_cons_self, Option.some.inj (hposition.symm.trans hplace)⟩
      · rcases ih he with hineligible | ⟨t, ht, hthere⟩
        · exact .inl hineligible
        · exact .inr ⟨t, List.mem_cons_of_mem _ ht, hthere⟩

/-- After the planned attributes have been added no element is eligible. -/
theorem ineligible_of_appended {namer : Namer} {config : Config} {scope : Scope} {parser : Parser}
    {source code path : Text} {tree newTree : List Node} {trace : List Plan.Event}
    (hpreserve : config.preserveExisting = true) {taken : List Text}
    (h : Plan.Trace namer config scope taken
      ((Node.elementsOf tree).filterMap (elementOf? source)) trace)
    (hnew : parser.tree? code path = some newTree)
    (happended : Appended source tree (Plan.editsOf config trace) code newTree) :
    ∀ e ∈ (read code path parser).elements, eligible config e = .ok false := by
  intro e he
  rw [(read_of_tree? hnew).1] at he
  obtain ⟨m, hm, hme⟩ := List.mem_filterMap.mp he
  obtain ⟨written, hlabel, hfilled, hattributes⟩ := label?_of_elementOf? hme
  have hcounterpart := List.mem_map_of_mem (f := Node.label? code) hm
  rw [happended] at hcounterpart
  obtain ⟨n, hn, hsame⟩ := List.mem_map.mp hcounterpart
  rw [hlabel] at hsame
  obtain ⟨⟨name, old⟩, hold, hextended⟩ := Option.map_eq_some_iff.mp hsame
  obtain ⟨rfl, rfl⟩ := Label.mk.inj hextended
  obtain ⟨e', hne, htag, hattributes'⟩ := elementOf?_of_label? hfilled hold
  have hplace := position_of_elementOf? hne
  by_cases hnone : addedTo source (Plan.editsOf config trace) n = []
  · rcases exists_edit_or_ineligible hpreserve h (List.mem_filterMap.mpr ⟨n, hn, hne⟩) hplace with
      hineligible | ⟨t, ht, hposition⟩
    · rw [← hineligible]
      refine eligible_congr htag.symm ?_
      rw [hattributes, hattributes', hnone, List.append_nil]
    · rw [addedTo, List.map_eq_nil_iff, List.filter_eq_nil_iff] at hnone
      exact absurd hposition (by simpa using hnone t ht)
  · obtain ⟨⟨name, value⟩, hadded⟩ := List.exists_mem_of_ne_nil _ hnone
    obtain ⟨t, ht, hpair⟩ := List.mem_map.mp hadded
    obtain ⟨rfl, rfl⟩ := Prod.mk.inj hpair
    have hname := Plan.name_of_mem_editsOf (List.mem_filter.mp ht).1
    apply eligible_of_has hpreserve
    rw [hattributes, ← hname]
    exact has_of_mem_written (List.mem_append_right _ hadded)

/-- The edits that are planned for a clean script with existing identifiers preserved are additions
to its elements. Either all of them are made, in order and with nothing to report, or the new text
is not clean and the script stays as it was. If the new text has the old tags with the added
attributes, nothing is left to plan. -/
theorem revise_planned (clock : ℕ) (config : Config) (scope : Scope) (source path : Text)
    (parser : Parser) (hordered : parser.Ordered) (hdistinct : parser.Distinct)
    (tree : List Node) (plan : Plan) (hpreserve : config.preserveExisting = true)
    (htree : parser.tree? source path = some tree)
    (hplan : Plan.ofElements (Namer.standard clock) config scope
      (read source path parser).elements = .ok plan) :
    ∃ additions : List (Addition source),
      (additions.map (·.node)).Sublist (Node.elementsOf tree) ∧
      additions.map (·.edit) = plan.edits ∧
      (parser.tree? (withAdditions additions) path = none →
        revise source plan.edits path parser =
          .refused source "Transform error: rewritten source failed to parse".toList) ∧
      ∀ newTree, parser.tree? (withAdditions additions) path = some newTree →
        revise source plan.edits path parser =
          { code := withAdditions additions, diagnostics := [], applied := plan.edits } ∧
        (Appended source tree plan.edits (withAdditions additions) newTree →
          (∀ namer scope, Plan.ofElements namer config scope
            (read (withAdditions additions) path parser).elements =
              .ok { taken := scope.taken }) ∧
          ∀ namer component, Framework.forPath? path = some .react →
            config.frameworks.contains Framework.react.name = true →
            let o := process namer config component (withAdditions additions) path parser
            o.success = true ∧ o.edits = [] ∧ o.code = withAdditions additions) := by
  obtain ⟨trace, htrace, rfl⟩ := Plan.ofElements_eq_ok_iff.mp hplan
  rw [(read_of_tree? htree).1] at htrace
  obtain ⟨additions, hnodes, hedits⟩ := exists_additions hpreserve htrace
  have hplanned : (trace.foldl (Plan.Event.replay config) { taken := scope.taken }).edits =
      Plan.editsOf config trace := by
    rw [Plan.edits_replay]
    rfl
  have hrevise := revise_additions hordered hdistinct htree hnodes
  rw [hplanned, ← hedits]
  refine ⟨additions, hnodes, rfl, ?_, ?_⟩
  · intro hbroken
    rw [hrevise, hbroken]
    rfl
  · intro newTree hnew
    rw [hnew] at hrevise
    refine ⟨hrevise, fun happended => ?_⟩
    rw [hedits] at happended
    have hineligible := ineligible_of_appended hpreserve htrace hnew happended
    refine ⟨fun namer scope => Plan.ofElements_of_ineligible namer scope hineligible, ?_⟩
    intro namer component hframework henabled
    exact process_of_ineligible hframework henabled (read_of_tree? hnew).2 hineligible

/-- A link in an attribute of a link. -/
def linkInLink : Text := "<a b=<a/>/>".toList

/-- Both links get their identifiers, each in its own tag, and a second pass finds nothing to
do. -/
theorem revise_planned_links :
    let parser := Parser.bundled
    let path := "A.jsx".toList
    let scope := Config.scope {} path none none []
    let code := "<a b=<a data-testid=\"test-link-1\"/> data-testid=\"test-link\"/>".toList
    parser.Ordered ∧ parser.Distinct ∧
    ∃ tree plan newTree, parser.tree? linkInLink path = some tree ∧
      Plan.ofElements (Namer.standard 0) {} scope (read linkInLink path parser).elements =
        .ok plan ∧
      revise linkInLink plan.edits path parser =
        { code, diagnostics := [], applied := plan.edits } ∧
      parser.tree? code path = some newTree ∧
      Appended linkInLink tree plan.edits code newTree ∧
      Plan.ofElements (Namer.standard 0) {} scope (read code path parser).elements =
        .ok { taken := [] } ∧
      let again := process (Namer.standard 0) {} none code path parser
      again.success = true ∧ again.edits = [] ∧ again.code = code := by
  intro parser path scope code
  have hrun : (parser.tree? linkInLink path).bind (fun tree =>
      (parser.tree? code path).bind fun newTree =>
        (Plan.ofElements (Namer.standard 0) {} scope
          (read linkInLink path parser).elements).toOption.map fun plan =>
            ((Node.elementsOf tree).map fun n =>
                (n.opening?.bind (·.children.getLast?)).map Node.stop,
              plan.edits.map fun t => (t.name, t.value),
              decide (Appended linkInLink tree plan.edits code newTree))) =
      some ([some 9, some 7], [("data-testid".toList, "test-link".toList),
        ("data-testid".toList, "test-link-1".toList)], true) := by
    decide +kernel
  obtain ⟨tree, htree, hrun⟩ := Option.bind_eq_some_iff.mp hrun
  obtain ⟨newTree, hnew, hrun⟩ := Option.bind_eq_some_iff.mp hrun
  obtain ⟨plan, hplan, hrun⟩ := Option.map_eq_some_iff.mp hrun
  obtain ⟨hends, hrun⟩ := Prod.mk.inj hrun
  obtain ⟨hvalues, happended⟩ := Prod.mk.inj hrun
  replace hplan : Plan.ofElements (Namer.standard 0) {} scope
      (read linkInLink path parser).elements = .ok plan := by
    revert hplan
    cases Plan.ofElements (Namer.standard 0) {} scope (read linkInLink path parser).elements with
    | error f => exact fun hplan => nomatch hplan
    | ok p => exact fun hplan => congrArg Except.ok (Option.some.inj hplan)
  have hordered : parser.Ordered := Parser.bundled_ordered
  have hdistinct : parser.Distinct := Parser.bundled_distinct
  obtain ⟨additions, hnodes, hedits, _, hclean⟩ := revise_planned 0 {} scope linkInLink path parser
    hordered hdistinct tree plan rfl htree hplan
  have hcode : withAdditions additions = code := by
    rw [← hedits, List.map_map] at hvalues
    have htwo : additions.length = 2 := by simpa using congrArg List.length hvalues
    have hall : additions.map (·.node) = Node.elementsOf tree := by
      apply hnodes.eq_of_length
      rw [List.length_map, htwo]
      simpa using (congrArg List.length hends).symm
    rw [← hall, List.map_map] at hends
    obtain ⟨a, b, rfl⟩ := List.length_eq_two.mp htwo
    simp only [List.map_cons, List.map_nil, Function.comp_apply, List.cons.injEq, Prod.mk.injEq,
      and_true, Addition.opening_eq, Addition.last_eq, Option.bind_some, Option.map_some,
      Option.some.injEq] at hvalues hends
    obtain ⟨⟨haname, havalue⟩, hbname, hbvalue⟩ := hvalues
    rw [withAdditions, List.map_cons, List.map_cons, Addition.splice, Addition.splice, hends.1,
      hends.2, haname, havalue, hbname, hbvalue]
    decide
  rw [hcode] at hclean
  obtain ⟨hrevise, hagain⟩ := hclean newTree hnew
  obtain ⟨hplanned, hprocessed⟩ := hagain (of_decide_eq_true happended)
  exact ⟨hordered, hdistinct, tree, plan, newTree, htree, hplan, hrevise, hnew,
    of_decide_eq_true happended, hplanned _ _, hprocessed _ none (by decide) (by decide)⟩

end MarkupIds.Script
