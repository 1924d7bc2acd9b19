import MarkupIds.Proofs.Position
import MarkupIds.Script.Reader

/-!
# What is relied on of a parser

No result on scripts depends on a grammar. Where one depends on the trees of a parser, it names what
it assumes of them: spans lie between characters, children lie in their parents one behind the
other, elements start apart, elements have opening tags. Spans that are ordered in bytes are ordered
in characters too.
-/

namespace MarkupIds.Script

/-! ## Nodes inside nodes -/

namespace Node

theorem elementsOf_eq_flatMap (ns : List Node) : elementsOf ns = ns.flatMap elements := by
  induction ns with
  | nil => rfl
  | cons n ns ih => rw [elementsOf, ih, List.flatMap_cons]

theorem elementsOf_append (ns ms : List Node) :
    elementsOf (ns ++ ms) = elementsOf ns ++ elementsOf ms := by
  simp only [elementsOf_eq_flatMap, List.flatMap_append]

theorem elementsOf_singleton (n : Node) : elementsOf [n] = n.elements := by
  rw [elementsOf, elementsOf, List.append_nil]

theorem mem_elementsOf {ns : List Node} {m : Node} :
    m ∈ elementsOf ns ↔ ∃ n ∈ ns, m ∈ n.elements := by
  rw [elementsOf_eq_flatMap, List.mem_flatMap]

theorem elements_of_ne {k : Kind} (h : k ≠ .element) (start stop : ℕ) (ns : List Node) :
    elements (.mk k start stop ns) = elementsOf ns := by
  have hkind : (k == .element) = false := by simpa using h
  rw [elements]
  simp [hkind]

theorem elements_other (start stop : ℕ) (ns : List Node) :
    elements (.mk .other start stop ns) = elementsOf ns :=
  elements_of_ne (by decide) start stop ns

theorem elements_element (start stop : ℕ) (ns : List Node) :
    elements (.mk .element start stop ns) = .mk .element start stop ns :: elementsOf ns := by
  rw [elements]
  simp

theorem forall_mem_elements {k : Kind} {start stop : ℕ} {ns : List Node} {P : Node → Prop}
    (hself : k = .element → P (.mk k start stop ns)) (hinside : ∀ n ∈ elementsOf ns, P n) :
    ∀ n ∈ elements (.mk k start stop ns), P n := by
  by_cases hkind : k = .element
  · have hself := hself hkind
    subst hkind
    rw [elements_element, List.forall_mem_cons]
    exact ⟨hself, hinside⟩
  · rwa [elements_of_ne hkind]

/-- All spans start and stop at offsets of a kind. -/
inductive SpansAt (S : ℕ → Prop) : Node → Prop where
  | mk {k start stop children} : S start → S stop → (∀ c ∈ children, SpansAt S c) →
      SpansAt S (.mk k start stop children)

/-- Children lie inside their parent, one behind the other, and so do theirs. -/
inductive Nested : Node → Prop where
  | mk {k start stop children} : start ≤ stop →
      (∀ c ∈ children, start ≤ c.start ∧ c.stop ≤ stop) →
      children.Pairwise (fun a b => a.stop ≤ b.start) → (∀ c ∈ children, Nested c) →
      Nested (.mk k start stop children)

namespace SpansAt

variable {S T : ℕ → Prop} {n m : Node} {ns : List Node}

theorem start (h : n.SpansAt S) : S n.start := by
  cases h with
  | mk hstart _ _ => exact hstart

theorem of_mem_children (h : n.SpansAt S) (hm : m ∈ n.children) : m.SpansAt S := by
  cases h with
  | mk _ _ hchildren => exact hchildren m hm

theorem mono (h : n.SpansAt S) (hsub : ∀ i, S i → T i) : n.SpansAt T := by
  induction h with
  | mk hstart hstop _ ih => exact .mk (hsub _ hstart) (hsub _ hstop) ih

theorem of_mem_elements (h : n.SpansAt S) : ∀ m ∈ n.elements, m.SpansAt S := by
  induction h with
  | mk hstart hstop hchildren ih =>
      refine forall_mem_elements (fun _ => .mk hstart hstop hchildren) ?_
      intro m hm
      obtain ⟨c, hc, hm⟩ := mem_elementsOf.mp hm
      exact ih c hc m hm

theorem of_mem_elementsOf (h : ∀ n ∈ ns, n.SpansAt S) : ∀ m ∈ elementsOf ns, m.SpansAt S := by
  intro m hm
  obtain ⟨n, hn, hm⟩ := mem_elementsOf.mp hm
  exact (h n hn).of_mem_elements m hm

end SpansAt

namespace Nested

variable {n m : Node}

theorem start_le_stop (h : n.Nested) : n.start ≤ n.stop := by
  cases h with
  | mk hle _ _ _ => exact hle

theorem children_pairwise (h : n.Nested) :
    n.children.Pairwise fun a b => a.stop ≤ b.start := by
  cases h with
  | mk _ _ hbehind _ => exact hbehind

theorem of_mem_children (h : n.Nested) (hm : m ∈ n.children) :
    m.Nested ∧ n.start ≤ m.start ∧ m.stop ≤ n.stop := by
  cases h with
  | mk _ hinside _ hchildren => exact ⟨hchildren m hm, hinside m hm⟩

theorem of_mem_elements (h : n.Nested) :
    ∀ m ∈ n.elements, m.Nested ∧ n.start ≤ m.start ∧ m.stop ≤ n.stop := by
  induction h with
  | mk hle hinside hbehind hchildren ih =>
      refine forall_mem_elements (fun _ => ⟨.mk hle hinside hbehind hchildren, le_rfl, le_rfl⟩) ?_
      intro m hm
      obtain ⟨c, hc, hm⟩ := mem_elementsOf.mp hm
      obtain ⟨hnested, hstart, hstop⟩ := ih c hc m hm
      exact ⟨hnested, (hinside c hc).1.trans hstart, hstop.trans (hinside c hc).2⟩

/-- Elements inside a node lie inside it. -/
theorem of_mem_elementsOf (h : n.Nested) (hm : m ∈ elementsOf n.children) :
    m.Nested ∧ n.start ≤ m.start ∧ m.stop ≤ n.stop := by
  obtain ⟨c, hc, hm⟩ := mem_elementsOf.mp hm
  obtain ⟨hnested, hstart, hstop⟩ := h.of_mem_children hc
  obtain ⟨hm, hlower, hupper⟩ := hnested.of_mem_elements m hm
  exact ⟨hm, hstart.trans hlower, hupper.trans hstop⟩

theorem spansAt (h : n.Nested) : n.SpansAt fun i => n.start ≤ i ∧ i ≤ n.stop := by
  induction h with
  | mk hle hinside _ _ ih =>
      refine .mk ⟨le_rfl, hle⟩ ⟨hle, le_rfl⟩ fun c hc => (ih c hc).mono fun i hi => ?_
      exact ⟨(hinside c hc).1.trans hi.1, hi.2.trans (hinside c hc).2⟩

/-- What holds between an element and those inside it, and between elements of which the first ends
where the second starts or before, holds between all elements in their order. -/
theorem elements_pairwise {R : Node → Node → Prop} (h : n.Nested)
    (hinside : ∀ m ∈ n.elements, ∀ m' ∈ n.elements, m' ∈ elementsOf m.children → R m m')
    (hbehind : ∀ m ∈ n.elements, ∀ m' ∈ n.elements, m.stop ≤ m'.start → R m m') :
    n.elements.Pairwise R := by
  induction h with
  | @mk k start stop children hle hwithin hapart hchildren ih =>
      have hmem : ∀ m ∈ elementsOf children, m ∈ elements (.mk k start stop children) := by
        intro m hm
        rw [elements]
        split
        · exact List.mem_cons_of_mem _ hm
        · exact hm
      have hmem' : ∀ c ∈ children, ∀ m ∈ c.elements,
          m ∈ elements (.mk k start stop children) :=
        fun c hc m hm => hmem m (mem_elementsOf.mpr ⟨c, hc, hm⟩)
      have hlater : (elementsOf children).Pairwise R := by
        rw [elementsOf_eq_flatMap, List.pairwise_flatMap]
        constructor
        · intro c hc
          exact ih c hc
            (fun m hm m' hm' => hinside m (hmem' c hc m hm) m' (hmem' c hc m' hm'))
            fun m hm m' hm' => hbehind m (hmem' c hc m hm) m' (hmem' c hc m' hm')
        · refine hapart.imp_of_mem fun {a b} ha hb hab m hm m' hm' => ?_
          have hend := ((hchildren a ha).of_mem_elements m hm).2.2
          have hstart := ((hchildren b hb).of_mem_elements m' hm').2.1
          exact hbehind m (hmem' a ha m hm) m' (hmem' b hb m' hm') ((hend.trans hab).trans hstart)
      by_cases hkind : k = .element
      · subst hkind
        rw [elements_element, List.pairwise_cons] at *
        exact ⟨fun m hm => hinside _ List.mem_cons_self m (hmem m hm) hm, hlater⟩
      · rwa [elements_of_ne hkind]

theorem elements_starts_le (h : n.Nested) : n.elements.Pairwise (·.start ≤ ·.start) := by
  apply h.elements_pairwise
  · intro m hm m' _ hm'
    exact ((h.of_mem_elements m hm).1.of_mem_elementsOf hm').2.1
  · intro m hm m' _ hle
    exact (h.of_mem_elements m hm).1.start_le_stop.trans hle

end Nested

/-! ## Nodes with other offsets -/

section MapOffsets

variable {f : ℕ → ℕ}

@[simp] theorem kind_mapOffsets (f : ℕ → ℕ) (n : Node) : (n.mapOffsets f).kind = n.kind := by
  obtain ⟨kind, start, stop, children⟩ := n
  rw [mapOffsets]
  rfl

@[simp] theorem start_mapOffsets (f : ℕ → ℕ) (n : Node) : (n.mapOffsets f).start = f n.start := by
  obtain ⟨kind, start, stop, children⟩ := n
  rw [mapOffsets]
  rfl

@[simp] theorem stop_mapOffsets (f : ℕ → ℕ) (n : Node) : (n.mapOffsets f).stop = f n.stop := by
  obtain ⟨kind, start, stop, children⟩ := n
  rw [mapOffsets]
  rfl

theorem mapOffsetsOf_eq_map (f : ℕ → ℕ) (ns : List Node) :
    mapOffsetsOf f ns = ns.map (mapOffsets f) := by
  induction ns with
  | nil => rw [mapOffsetsOf, List.map_nil]
  | cons n ns ih => rw [mapOffsetsOf, ih, List.map_cons]

@[simp] theorem children_mapOffsets (f : ℕ → ℕ) (n : Node) :
    (n.mapOffsets f).children = n.children.map (mapOffsets f) := by
  obtain ⟨kind, start, stop, children⟩ := n
  rw [mapOffsets, mapOffsetsOf_eq_map]
  rfl

theorem opening?_mapOffsets (f : ℕ → ℕ) (n : Node) :
    (n.mapOffsets f).opening? = n.opening?.map (mapOffsets f) := by
  simp only [opening?, children_mapOffsets, List.find?_map, Function.comp_def, kind_mapOffsets]

mutual

theorem elements_mapOffsets (f : ℕ → ℕ) :
    (n : Node) → (n.mapOffsets f).elements = n.elements.map (mapOffsets f)
  | .mk kind start stop children => by
    rw [mapOffsets, elements, elements, elementsOf_mapOffsetsOf f children]
    split
    · rw [List.map_cons, mapOffsets]
    · rfl

theorem elementsOf_mapOffsetsOf (f : ℕ → ℕ) :
    (ns : List Node) → elementsOf (mapOffsetsOf f ns) = (elementsOf ns).map (mapOffsets f)
  | [] => by rw [mapOffsetsOf, elementsOf, List.map_nil]
  | n :: ns => by
    rw [mapOffsetsOf, elementsOf, elementsOf, elements_mapOffsets f n,
      elementsOf_mapOffsetsOf f ns, List.map_append]

end

theorem SpansAt.mapOffsets {S : ℕ → Prop} {n : Node} (h : n.SpansAt fun i => S (f i)) :
    (n.mapOffsets f).SpansAt S := by
  induction h with
  | mk hstart hstop _ ih =>
      rw [Node.mapOffsets, mapOffsetsOf_eq_map]
      exact .mk hstart hstop (List.forall_mem_map.mpr ih)

theorem Nested.mapOffsets {n : Node} {S : ℕ → Prop} (h : n.Nested) (hspans : n.SpansAt S)
    (hf : ∀ i j, S i → S j → i ≤ j → f i ≤ f j) : (n.mapOffsets f).Nested := by
  induction h with
  | mk hle hinside hbehind hchildren ih =>
      obtain ⟨hstart, hstop, hspans⟩ := hspans
      have hends : ∀ c : Node, c.SpansAt S → S c.start ∧ S c.stop := by
        rintro _ ⟨hstart, hstop, _⟩
        exact ⟨hstart, hstop⟩
      rw [Node.mapOffsets, mapOffsetsOf_eq_map]
      refine .mk (hf _ _ hstart hstop hle) ?_ ?_ ?_
      · refine List.forall_mem_map.mpr fun c hc => ?_
        obtain ⟨hcstart, hcstop⟩ := hends c (hspans c hc)
        rw [start_mapOffsets, stop_mapOffsets]
        exact ⟨hf _ _ hstart hcstart (hinside c hc).1, hf _ _ hcstop hstop (hinside c hc).2⟩
      · rw [List.pairwise_map]
        refine hbehind.imp_of_mem fun {a b} ha hb hab => ?_
        rw [stop_mapOffsets, start_mapOffsets]
        exact hf _ _ (hends a (hspans a ha)).2 (hends b (hspans b hb)).1 hab
      · exact List.forall_mem_map.mpr fun c hc => ih c hc (hspans c hc)

/-- Offsets that are put back where they were leave the node as it was. -/
theorem mapOffsets_mapOffsets_eq_self {g : ℕ → ℕ} {n : Node}
    (h : n.SpansAt fun i => f (g i) = i) : (n.mapOffsets g).mapOffsets f = n := by
  induction h with
  | @mk k start stop children hstart hstop _ ih =>
      have hchildren : children.map (Node.mapOffsets f ∘ Node.mapOffsets g) = children :=
        (List.map_congr_left ih).trans children.map_id'
      rw [mapOffsets, mapOffsets, mapOffsetsOf_eq_map, mapOffsetsOf_eq_map, hstart, hstop,
        List.map_map, hchildren]

end MapOffsets

end Node

/-! ## Bytes between characters -/

/-- A byte offset at which a character of the source starts, or its end. -/
def Boundary (source : Text) (byte : ℕ) : Prop :=
  ∃ i ≤ source.length, byte = (Text.encode (source.take i)).length

namespace Boundary

variable {source : Text} {a b : ℕ}

theorem zero (source : Text) : Boundary source 0 :=
  ⟨0, Nat.zero_le _, rfl⟩

theorem length (source : Text) : Boundary source (Text.encode source).length :=
  ⟨source.length, le_rfl, by rw [List.take_length]⟩

/-- Characters are counted in the order of their bytes. -/
theorem charOffset_lt_iff (ha : Boundary source a) (hb : Boundary source b) :
    (OffsetMap.ofText source).charOffset a < (OffsetMap.ofText source).charOffset b ↔ a < b := by
  obtain ⟨i, hi, rfl⟩ := ha
  obtain ⟨j, hj, rfl⟩ := hb
  rw [OffsetMap.charOffset_encode_take hi, OffsetMap.charOffset_encode_take hj]
  constructor
  · exact fun hlt => Text.length_encode_take_lt hlt hj
  · intro hlt
    by_contra hge
    rcases Nat.lt_or_eq_of_le (Nat.not_lt.mp hge) with hgt | rfl
    · exact absurd (Text.length_encode_take_lt hgt hi) (Nat.lt_asymm hlt)
    · exact lt_irrefl _ hlt

theorem charOffset_le (ha : Boundary source a) (hb : Boundary source b) (hle : a ≤ b) :
    (OffsetMap.ofText source).charOffset a ≤ (OffsetMap.ofText source).charOffset b := by
  rw [← Nat.not_lt, charOffset_lt_iff hb ha]
  exact Nat.not_lt.mpr hle

end Boundary

/-! ## Assumptions on parsers -/

namespace Parser

/-- In the trees of the parser spans lie between characters, and children inside their parents, one
behind the other. -/
structure Ordered (parser : Parser) : Prop where
  boundaries : ∀ {dialect source tree}, parser.parse? dialect source = some tree →
    ∀ n ∈ tree, n.SpansAt (Boundary source)
  nested : ∀ {dialect source tree}, parser.parse? dialect source = some tree →
    (Node.mk .other 0 (Text.encode source).length tree).Nested

/-- No two elements of a tree start at the same byte. -/
def Distinct (parser : Parser) : Prop :=
  ∀ {dialect source tree}, parser.parse? dialect source = some tree →
    (Node.elementsOf tree).Pairwise (·.start ≠ ·.start)

/-- An element starts in front of all elements inside it. -/
def Leads (parser : Parser) : Prop :=
  ∀ {dialect source tree}, parser.parse? dialect source = some tree →
    ∀ n ∈ Node.elementsOf tree, ∀ m ∈ Node.elementsOf n.children, n.start < m.start

/-- Every element has an opening tag. -/
def Opens (parser : Parser) : Prop :=
  ∀ {dialect source tree}, parser.parse? dialect source = some tree →
    ∀ n ∈ Node.elementsOf tree, n.opening?.isSome = true

variable {parser : Parser} {source path : Text} {tree : List Node}

theorem exists_parse? (h : parser.tree? source path = some tree) :
    ∃ dialect raw, parser.parse? dialect source = some raw ∧
      tree = Node.mapOffsetsOf (OffsetMap.ofText source).charOffset raw := by
  obtain ⟨raw, hraw, rfl⟩ := Option.map_eq_some_iff.mp h
  obtain ⟨dialect, _, hparse⟩ := List.exists_of_findSome?_eq_some hraw
  exact ⟨dialect, raw, hparse, rfl⟩

/-- Elements that are not empty start apart if each starts in front of those inside it. -/
theorem Ordered.distinct_of_leads (hordered : parser.Ordered) (hleads : parser.Leads)
    (hfilled : ∀ {dialect source tree}, parser.parse? dialect source = some tree →
      ∀ n ∈ Node.elementsOf tree, n.start < n.stop) :
    parser.Distinct := by
  intro dialect source tree h
  have hlt : (Node.elements (.mk .other 0 (Text.encode source).length tree)).Pairwise
      (·.start < ·.start) := by
    have hleads := hleads h
    have hfilled := hfilled h
    rw [← Node.elements_other 0 (Text.encode source).length tree] at hleads hfilled
    exact (hordered.nested h).elements_pairwise (fun m hm m' _ => hleads m hm m')
      fun m hm m' _ hle => (hfilled m hm).trans_le hle
  rw [Node.elements_other] at hlt
  exact hlt.imp fun hlt => Nat.ne_of_lt hlt

/-- The tree lies in the source, counted in characters. -/
theorem Ordered.tree_nested (hordered : parser.Ordered)
    (h : parser.tree? source path = some tree) :
    (Node.mk .other 0 source.length tree).Nested := by
  obtain ⟨dialect, raw, hraw, rfl⟩ := exists_parse? h
  have hmapped := (hordered.nested hraw).mapOffsets
    (.mk (Boundary.zero source) (Boundary.length source) (hordered.boundaries hraw))
    fun i j => Boundary.charOffset_le
  have hstart : (OffsetMap.ofText source).charOffset 0 = 0 :=
    OffsetMap.charOffset_encode_take (Nat.zero_le source.length)
  have hstop : (OffsetMap.ofText source).charOffset (Text.encode source).length =
      source.length := by
    have hwhole := OffsetMap.charOffset_encode_take (Nat.le_refl source.length)
    rwa [List.take_length] at hwhole
  rwa [Node.mapOffsets, hstart, hstop] at hmapped

/-- Elements are listed in the order they start, and no two start together. -/
theorem Ordered.starts_lt (hordered : parser.Ordered) (hdistinct : parser.Distinct)
    (h : parser.tree? source path = some tree) :
    (Node.elementsOf tree).Pairwise (·.start < ·.start) := by
  obtain ⟨dialect, raw, hraw, rfl⟩ := exists_parse? h
  have hspans := Node.SpansAt.of_mem_elementsOf (hordered.boundaries hraw)
  have hle := (hordered.nested hraw).elements_starts_le
  rw [Node.elements_other] at hle
  rw [Node.elementsOf_mapOffsetsOf, List.pairwise_map]
  refine (hle.and (hdistinct hraw)).imp_of_mem fun {a b} ha hb hab => ?_
  rw [Node.start_mapOffsets, Node.start_mapOffsets,
    Boundary.charOffset_lt_iff (hspans a ha).start (hspans b hb).start]
  exact lt_of_le_of_ne hab.1 hab.2

theorem Leads.start_lt (hleads : parser.Leads) (hordered : parser.Ordered)
    (h : parser.tree? source path = some tree) :
    ∀ n ∈ Node.elementsOf tree, ∀ m ∈ Node.elementsOf n.children, n.start < m.start := by
  obtain ⟨dialect, raw, hraw, rfl⟩ := exists_parse? h
  rw [Node.elementsOf_mapOffsetsOf]
  refine List.forall_mem_map.mpr fun n hn => ?_
  have hspans := Node.SpansAt.of_mem_elementsOf (hordered.boundaries hraw) n hn
  rw [Node.children_mapOffsets, ← Node.mapOffsetsOf_eq_map, Node.elementsOf_mapOffsetsOf]
  refine List.forall_mem_map.mpr fun m hm => ?_
  have hinside := Node.SpansAt.of_mem_elementsOf (fun c hc => hspans.of_mem_children hc) m hm
  rw [Node.start_mapOffsets, Node.start_mapOffsets,
    Boundary.charOffset_lt_iff hspans.start hinside.start]
  exact hleads hraw n hn m hm

theorem Opens.opening? (hopens : parser.Opens) (h : parser.tree? source path = some tree) :
    ∀ n ∈ Node.elementsOf tree, n.opening?.isSome = true := by
  obtain ⟨dialect, raw, hraw, rfl⟩ := exists_parse? h
  rw [Node.elementsOf_mapOffsetsOf]
  refine List.forall_mem_map.mpr fun n hn => ?_
  rw [Node.opening?_mapOffsets, Option.isSome_map]
  exact hopens hraw n hn

end Parser

end MarkupIds.Script
