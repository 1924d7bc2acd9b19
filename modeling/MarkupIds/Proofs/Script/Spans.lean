import MarkupIds.Proofs.Script.Tree
import MarkupIds.Proofs.Text.Basic

/-!
# The spans of the bundled parser

The trees that the grammar makes are ordered, and their elements start apart: an element starts
with its bracket, and everything inside it stands behind the bracket.
-/

namespace MarkupIds.Script

/-! ## Places -/

namespace Place

theorem pos_advance (p : Place) {n : ℕ} (h : n ≤ p.rest.length) :
    (p.advance n).pos = p.pos + n := by
  simp [advance, h]

theorem le_pos_advance (p : Place) (n : ℕ) : p.pos ≤ (p.advance n).pos :=
  Nat.le_add_right _ _

theorem total_advance (p : Place) (n : ℕ) :
    (p.advance n).pos + (p.advance n).rest.length = p.pos + p.rest.length := by
  have hwhole : (p.rest.take n).length + (p.rest.drop n).length = p.rest.length := by
    rw [← List.length_append, List.take_append_drop]
  simp only [advance]
  omega

theorem le_pos_skipBlanks (p : Place) : p.pos ≤ p.skipBlanks.pos :=
  p.le_pos_advance _

theorem total_skipBlanks (p : Place) :
    p.skipBlanks.pos + p.skipBlanks.rest.length = p.pos + p.rest.length :=
  p.total_advance _

end Place

/-! ## Runs as derivations -/

/-- The ways a form can fit between two places, with the nodes it makes there. -/
inductive Fits {ρ : Type} (grammar : ρ → Form ρ) : Form ρ → Place → List Node → Place → Prop where
  | empty {p} : Fits grammar .empty p [] p
  | token {scan p n} : scan p.skipBlanks.rest = some n →
      Fits grammar (.token scan) p [] (p.skipBlanks.advance n)
  | glued {scan p n} : scan p.rest = some n → Fits grammar (.glued scan) p [] (p.advance n)
  | look {test p} : Fits grammar (.look test) p [] p
  | rule {r p ns q} : Fits grammar (grammar r) p ns q → Fits grammar (.rule r) p ns q
  | seq {a b p ns q ms r} : Fits grammar a p ns q → Fits grammar b q ms r →
      Fits grammar (.seq a b) p (ns ++ ms) r
  | left {a b p ns q} : Fits grammar a p ns q → Fits grammar (.alt a b) p ns q
  | right {a b p ns q} : Fits grammar b p ns q → Fits grammar (.alt a b) p ns q
  | none {a p} : Fits grammar (.many a) p [] p
  | more {a p ns q ms r} : Fits grammar a p ns q → Fits grammar (.many a) q ms r →
      Fits grammar (.many a) p (ns ++ ms) r
  | absent {a p} : Fits grammar (.absent a) p [] p
  | node {k a p ns q} : Fits grammar a p.skipBlanks ns q →
      Fits grammar (.node k a) p [.mk k p.skipBlanks.pos q.pos ns] q
  | nodeHere {k a p ns q} : Fits grammar a p ns q →
      Fits grammar (.nodeHere k a) p [.mk k p.pos q.pos ns] q
  | only {accepts a p ns q} : Fits grammar a p ns q → Fits grammar (.only accepts a) p ns q
  | within {change a p ns q} : Fits grammar a p ns q → Fits grammar (.within change a) p ns q

theorem fits_of_run {ρ : Type} {grammar : ρ → Form ρ} {fuel : ℕ} {setting : Setting}
    {form : Form ρ} {p q : Place} {ns : List Node}
    (h : run grammar fuel setting form p = some (ns, q)) : Fits grammar form p ns q := by
  induction fuel generalizing setting form p q ns with
  | zero => cases h
  | succ fuel ih =>
      cases form with
      | empty =>
          cases h
          exact .empty
      | token scan =>
          simp only [run] at h
          split at h
          · rename_i n hscan
            cases h
            exact .token hscan
          · cases h
      | glued scan =>
          simp only [run] at h
          split at h
          · rename_i n hscan
            cases h
            exact .glued hscan
          · cases h
      | look test =>
          simp only [run] at h
          split at h
          · cases h
            exact .look
          · cases h
      | rule r => exact .rule (ih h)
      | seq a b =>
          simp only [run] at h
          split at h
          · cases h
          · rename_i ns q ha
            split at h
            · cases h
            · rename_i ms r hb
              cases h
              exact .seq (ih ha) (ih hb)
      | alt a b =>
          simp only [run] at h
          split at h
          · rename_i found ha
            cases h
            exact .left (ih ha)
          · exact .right (ih h)
      | many a =>
          simp only [run] at h
          split at h
          · cases h
            exact .none
          · rename_i ns q ha
            split at h
            · cases h
              exact .none
            · split at h
              · cases h
              · rename_i ms r hmore
                cases h
                exact .more (ih ha) (ih hmore)
      | absent a =>
          simp only [run] at h
          split at h
          · cases h
          · cases h
            exact .absent
      | node k a =>
          simp only [run] at h
          split at h
          · cases h
          · rename_i ns q ha
            cases h
            exact .node (ih ha)
      | nodeHere k a =>
          simp only [run] at h
          split at h
          · cases h
          · rename_i ns q ha
            cases h
            exact .nodeHere (ih ha)
      | only accepts a =>
          simp only [run] at h
          split at h
          · exact .only (ih h)
          · cases h
      | within change a => exact .within (ih h)

/-! ## Nodes in their order -/

namespace Node.Nested

variable {k k' : Kind} {i j l : ℕ} {ns ms : List Node}

theorem nil (hle : i ≤ j) : (Node.mk k i j []).Nested :=
  .mk hle (by simp) .nil (by simp)

/-- Nodes up to an offset, and nodes from there on. -/
theorem append (hns : (Node.mk k i j ns).Nested) (hms : (Node.mk k j l ms).Nested) :
    (Node.mk k i l (ns ++ ms)).Nested := by
  obtain ⟨hij, hnsInside, hnsBehind, hns⟩ := hns
  obtain ⟨hjl, hmsInside, hmsBehind, hms⟩ := hms
  refine .mk (hij.trans hjl) ?_ ?_ (List.forall_mem_append.mpr ⟨hns, hms⟩)
  · rw [List.forall_mem_append]
    exact ⟨fun n hn => ⟨(hnsInside n hn).1, (hnsInside n hn).2.trans hjl⟩,
      fun m hm => ⟨hij.trans (hmsInside m hm).1, (hmsInside m hm).2⟩⟩
  · rw [List.pairwise_append]
    exact ⟨hnsBehind, hmsBehind, fun n hn m hm => (hnsInside n hn).2.trans (hmsInside m hm).1⟩

theorem singleton {n : Node} (hn : n.Nested) (hi : i ≤ n.start) (hj : n.stop ≤ j) :
    (Node.mk k i j [n]).Nested :=
  .mk ((hi.trans hn.start_le_stop).trans hj) (by simpa using ⟨hi, hj⟩)
    (List.pairwise_singleton _ _) (by simpa using hn)

end Node.Nested

section Runs

variable {ρ : Type} {grammar : ρ → Form ρ} {form : Form ρ} {p q : Place} {ns : List Node}

theorem Fits.pos_le (h : Fits grammar form p ns q) : p.pos ≤ q.pos := by
  induction h with
  | empty | look | none | absent => exact Nat.le_refl _
  | token _ => exact (Place.le_pos_skipBlanks _).trans (Place.le_pos_advance _ _)
  | glued _ => exact Place.le_pos_advance _ _
  | seq _ _ iha ihb => exact iha.trans ihb
  | more _ _ iha ihmore => exact iha.trans ihmore
  | node _ ih => exact (Place.le_pos_skipBlanks _).trans ih
  | rule _ ih | left _ ih | right _ ih | nodeHere _ ih | only _ ih | within _ ih => exact ih

/-- A run only moves forward in one text. -/
theorem Fits.total_eq (h : Fits grammar form p ns q) :
    q.pos + q.rest.length = p.pos + p.rest.length := by
  induction h with
  | empty | look | none | absent => rfl
  | token _ => rw [Place.total_advance, Place.total_skipBlanks]
  | glued _ => rw [Place.total_advance]
  | seq _ _ iha ihb => rw [ihb, iha]
  | more _ _ iha ihmore => rw [ihmore, iha]
  | node _ ih => rw [ih, Place.total_skipBlanks]
  | rule _ ih | left _ ih | right _ ih | nodeHere _ ih | only _ ih | within _ ih => exact ih

/-- The nodes of a run stand between its two places. -/
theorem Fits.nested (h : Fits grammar form p ns q) (k : Kind) :
    (Node.mk k p.pos q.pos ns).Nested := by
  induction h generalizing k with
  | empty | look | none | absent => exact .nil (Nat.le_refl _)
  | token hscan => exact .nil (Fits.token hscan : Fits grammar _ _ _ _).pos_le
  | glued hscan => exact .nil (Fits.glued hscan : Fits grammar _ _ _ _).pos_le
  | seq _ _ iha ihb => exact (iha k).append (ihb k)
  | more _ _ iha ihmore => exact (iha k).append (ihmore k)
  | node _ ih => exact (ih _).singleton (Place.le_pos_skipBlanks _) (Nat.le_refl _)
  | nodeHere _ ih => exact (ih _).singleton (Nat.le_refl _) (Nat.le_refl _)
  | rule _ ih | left _ ih | right _ ih | only _ ih | within _ ih => exact ih k

/-! ## Starts of elements -/

/-- A scanner that takes at least one character. -/
def Takes (scan : Scanner) : Prop :=
  ∀ cs n, scan cs = some n → 0 < n ∧ n ≤ cs.length

namespace Form

/-- The form takes a lexeme before it makes an element. -/
def Leads : Form ρ → Prop
  | .token scan => Takes scan
  | .seq a _ => a.Leads
  | .alt a b => a.Leads ∧ b.Leads
  | .node k a => k ≠ .element ∧ a.Leads
  | _ => False

/-- Every element that the form makes starts with a lexeme of its own. -/
def Guarded : Form ρ → Prop
  | .seq a b | .alt a b => a.Guarded ∧ b.Guarded
  | .many a | .only _ a | .within _ a => a.Guarded
  | .node k a => a.Guarded ∧ (k = .element → a.Leads)
  | .nodeHere k a => a.Guarded ∧ k ≠ .element
  | _ => True

/-- The form makes no elements except by its rules. -/
def elementFree : Form ρ → Bool
  | .seq a b | .alt a b => a.elementFree && b.elementFree
  | .many a | .only _ a | .within _ a => a.elementFree
  | .node k a | .nodeHere k a => k != .element && a.elementFree
  | _ => true

theorem guarded_of_elementFree {a : Form ρ} (h : a.elementFree = true) : a.Guarded := by
  induction a with
  | empty | token | glued | look | rule | absent => trivial
  | seq a b iha ihb | alt a b iha ihb =>
      rw [elementFree, Bool.and_eq_true] at h
      exact ⟨iha h.1, ihb h.2⟩
  | many a ih | only _ a ih | within _ a ih => exact ih h
  | node k a ih =>
      rw [elementFree, Bool.and_eq_true, bne_iff_ne] at h
      exact ⟨ih h.2, fun hkind => absurd hkind h.1⟩
  | nodeHere k a ih =>
      rw [elementFree, Bool.and_eq_true, bne_iff_ne] at h
      exact ⟨ih h.2, h.1⟩

end Form

theorem Fits.le_start (h : Fits grammar form p ns q) :
    ∀ n ∈ Node.elementsOf ns, p.pos ≤ n.start :=
  fun _ hn => ((h.nested .other).of_mem_elementsOf hn).2.1

/-- Behind its first lexeme a form stands behind the blanks in front of it, and so do the elements
it makes. -/
theorem Fits.lt_of_leads (h : Fits grammar form p ns q) (hleads : form.Leads) :
    p.skipBlanks.pos < q.pos ∧ ∀ n ∈ Node.elementsOf ns, p.skipBlanks.pos < n.start := by
  induction h with
  | @token scan p n hscan =>
      obtain ⟨hpos, hle⟩ := hleads _ n hscan
      rw [Place.pos_advance _ hle]
      exact ⟨Nat.lt_add_of_pos_right hpos, by simp [Node.elementsOf]⟩
  | seq _ hb iha _ =>
      obtain ⟨hpos, hstarts⟩ := iha hleads
      rw [Node.elementsOf_append, List.forall_mem_append]
      exact ⟨hpos.trans_le hb.pos_le, hstarts, fun n hn => hpos.trans_le (hb.le_start n hn)⟩
  | left _ ih => exact ih hleads.1
  | right _ ih => exact ih hleads.2
  | @node k a p _ _ _ ih =>
      obtain ⟨hpos, hstarts⟩ := ih hleads.2
      have hskip := p.skipBlanks.le_pos_skipBlanks
      rw [Node.elementsOf_singleton]
      exact ⟨hskip.trans_lt hpos, Node.forall_mem_elements (fun hkind => absurd hkind hleads.1)
        fun n hn => hskip.trans_lt (hstarts n hn)⟩
  | _ => exact hleads.elim

/-- An element is not empty, and starts in front of all elements inside it. -/
theorem Fits.elements_lead (hgrammar : ∀ r, (grammar r).Guarded) (h : Fits grammar form p ns q)
    (hform : form.Guarded) :
    ∀ n ∈ Node.elementsOf ns, n.start < n.stop ∧
      ∀ m ∈ Node.elementsOf n.children, n.start < m.start := by
  induction h with
  | empty | look | none | absent | token _ | glued _ => simp [Node.elementsOf]
  | rule _ ih => exact ih (hgrammar _)
  | seq _ _ iha ihb =>
      rw [Node.elementsOf_append, List.forall_mem_append]
      exact ⟨iha hform.1, ihb hform.2⟩
  | more _ _ iha ihmore =>
      rw [Node.elementsOf_append, List.forall_mem_append]
      exact ⟨iha hform, ihmore hform⟩
  | left _ ih => exact ih hform.1
  | right _ ih => exact ih hform.2
  | @node k a p _ _ ha ih =>
      rw [Node.elementsOf_singleton]
      refine Node.forall_mem_elements (fun hkind => ?_) (ih hform.1)
      obtain ⟨hpos, hstarts⟩ := ha.lt_of_leads (hform.2 hkind)
      have hskip := p.skipBlanks.le_pos_skipBlanks
      exact ⟨hskip.trans_lt hpos, fun m hm => hskip.trans_lt (hstarts m hm)⟩
  | nodeHere _ ih =>
      rw [Node.elementsOf_singleton]
      exact Node.forall_mem_elements (fun hkind => absurd hkind hform.2) (ih hform.1)
  | only _ ih | within _ ih => exact ih hform

end Runs

/-! ## The grammar of scripts -/

theorem takes_literal {t : Text} (h : t ≠ []) : Takes (literal t) := by
  intro cs n hscan
  unfold literal at hscan
  split at hscan
  · rename_i hstarts
    cases hscan
    exact ⟨List.length_pos_iff.mpr h, Text.length_le_of_startsWith hstarts⟩
  · cases hscan

theorem element_guarded : Shape.element.Guarded := by
  have hbracket : Takes (literal "<".toList) := takes_literal (by decide)
  refine ⟨Form.guarded_of_elementFree rfl, fun _ => ⟨⟨by decide, hbracket⟩, ⟨by decide, hbracket⟩⟩⟩

theorem grammar_guarded (s : Symbol) : (grammar s).Guarded := by
  cases s with
  | element => exact element_guarded
  | _ => exact Form.guarded_of_elementFree (by decide +kernel)

theorem script_guarded : Shape.script.Guarded :=
  Form.guarded_of_elementFree (by decide +kernel)

theorem exists_fits_of_parse? {dialect : Dialect} {source : Text} {tree : List Node}
    (h : parse? dialect source = some tree) :
    ∃ q, Fits grammar Shape.script ⟨0, source⟩ tree q ∧ q.pos ≤ source.length := by
  obtain ⟨⟨ns, q⟩, hrun, rfl⟩ := Option.map_eq_some_iff.mp h
  have hfits := fits_of_run hrun
  have htotal := hfits.total_eq
  simp only [Nat.zero_add] at htotal
  exact ⟨q, hfits, by omega⟩

/-- The tree of a script stands between the ends of its text. -/
theorem parse?_nested {dialect : Dialect} {source : Text} {tree : List Node}
    (h : parse? dialect source = some tree) :
    (Node.mk .other 0 source.length tree).Nested := by
  obtain ⟨q, hfits, hq⟩ := exists_fits_of_parse? h
  obtain ⟨-, hinside, hbehind, hchildren⟩ := hfits.nested .other
  exact .mk (Nat.zero_le _) (fun n hn => ⟨Nat.zero_le _, (hinside n hn).2.trans hq⟩) hbehind
    hchildren

/-! ## The bundled parser -/

/-- The byte at which a character starts. -/
abbrev byteOffset (source : Text) (i : ℕ) : ℕ :=
  (Text.encode (source.take i)).length

theorem byteOffset_le (source : Text) {i j : ℕ} (h : i ≤ j) :
    byteOffset source i ≤ byteOffset source j := by
  obtain ⟨rest, hrest⟩ := List.take_prefix_take_left (l := source) h
  rw [byteOffset, byteOffset, ← hrest, Text.encode_append, List.length_append]
  exact Nat.le_add_right _ _

theorem boundary_byteOffset (source : Text) (i : ℕ) : Boundary source (byteOffset source i) := by
  rcases Nat.le_total i source.length with hi | hi
  · exact ⟨i, hi, rfl⟩
  · rw [byteOffset, List.take_of_length_le hi]
    exact Boundary.length source

namespace Parser

variable {dialect : Dialect} {source path : Text} {tree : List Node}

theorem exists_bundled (h : bundled.parse? dialect source = some tree) :
    ∃ ns, Script.parse? dialect source = some ns ∧
      tree = Node.mapOffsetsOf (byteOffset source) ns := by
  obtain ⟨ns, hns, rfl⟩ := Option.map_eq_some_iff.mp h
  exact ⟨ns, hns, rfl⟩

theorem bundled_ordered : bundled.Ordered := by
  constructor
  · intro dialect source tree h n hn
    obtain ⟨ns, hns, rfl⟩ := exists_bundled h
    rw [Node.mapOffsetsOf_eq_map] at hn
    obtain ⟨m, hm, rfl⟩ := List.mem_map.mp hn
    have hspans := ((parse?_nested hns).of_mem_children hm).1.spansAt
    exact (hspans.mono fun i _ => boundary_byteOffset source i).mapOffsets
  · intro dialect source tree h
    obtain ⟨ns, hns, rfl⟩ := exists_bundled h
    have hroot := (parse?_nested hns).mapOffsets (parse?_nested hns).spansAt
      fun i j _ _ => byteOffset_le source
    rw [Node.mapOffsets] at hroot
    rwa [byteOffset, byteOffset, List.take_length] at hroot

theorem bundled_lead {dialect : Dialect} (h : bundled.parse? dialect source = some tree) :
    ∀ n ∈ Node.elementsOf tree, n.start < n.stop ∧
      ∀ m ∈ Node.elementsOf n.children, n.start < m.start := by
  obtain ⟨ns, hns, rfl⟩ := exists_bundled h
  rw [Node.elementsOf_mapOffsetsOf]
  refine List.forall_mem_map.mpr fun n hn => ?_
  obtain ⟨q, hfits, _⟩ := exists_fits_of_parse? hns
  obtain ⟨hlt, hinside⟩ := hfits.elements_lead grammar_guarded script_guarded n hn
  obtain ⟨hnested, _, hstop⟩ := (parse?_nested hns).of_mem_elementsOf hn
  rw [Node.start_mapOffsets, Node.stop_mapOffsets, Node.children_mapOffsets,
    ← Node.mapOffsetsOf_eq_map, Node.elementsOf_mapOffsetsOf]
  refine ⟨Text.length_encode_take_lt hlt hstop, List.forall_mem_map.mpr fun m hm => ?_⟩
  obtain ⟨hm', _, hmstop⟩ := hnested.of_mem_elementsOf hm
  rw [Node.start_mapOffsets]
  exact Text.length_encode_take_lt (hinside m hm)
    ((hm'.start_le_stop.trans hmstop).trans hstop)

theorem bundled_leads : bundled.Leads :=
  fun h n hn => (bundled_lead h n hn).2

theorem bundled_distinct : bundled.Distinct :=
  bundled_ordered.distinct_of_leads bundled_leads fun h n hn => (bundled_lead h n hn).1

/-- The bundled parser counts bytes, and counting characters gives its own spans back. -/
theorem exists_of_bundled_tree? (h : bundled.tree? source path = some tree) :
    ∃ dialect, Script.parse? dialect source = some tree := by
  obtain ⟨dialect, raw, hraw, rfl⟩ := exists_parse? h
  obtain ⟨ns, hns, rfl⟩ := exists_bundled hraw
  refine ⟨dialect, hns.trans (congrArg some ?_)⟩
  rw [Node.mapOffsetsOf_eq_map, Node.mapOffsetsOf_eq_map, List.map_map]
  refine (List.map_id ns).symm.trans (List.map_congr_left fun n hn => ?_)
  obtain ⟨hnested, _, hstop⟩ := (parse?_nested hns).of_mem_children hn
  refine (Node.mapOffsets_mapOffsets_eq_self (hnested.spansAt.mono fun i hi => ?_)).symm
  exact OffsetMap.charOffset_encode_take (hi.2.trans hstop)

end Parser

end MarkupIds.Script
