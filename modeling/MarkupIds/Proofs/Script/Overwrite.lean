import MarkupIds.Proofs.Script.Additions

/-!
# An attribute that is set in a script is read back

One edit makes one splice in the opening tag of its element, behind the element's start. If the
new text is parsed as the old one was, with that attribute in place of the old one, the element
stands where it stood and the attribute is read with its value.
-/

namespace MarkupIds.Script

/-! ## The splice of an edit -/

/-- The node is an attribute of this name. -/
def Node.isNamed (source name : Text) (n : Node) : Bool :=
  n.kind == .attribute && n.attributeName source == name

/-- Among some parts no attribute has the name, or one is the first that has it. -/
theorem exists_first_named (source name : Text) (parts : List Node) :
    (∀ n ∈ parts, n.isNamed source name = false) ∨
      ∃ front n back, parts = front ++ n :: back ∧ n.isNamed source name = true ∧
        ∀ m ∈ front, m.isNamed source name = false := by
  cases hfind : parts.find? (Node.isNamed source name) with
  | none => exact .inl fun n hn => Bool.eq_false_iff.mpr (List.find?_eq_none.mp hfind n hn)
  | some n =>
      obtain ⟨hn, front, back, rfl, hfront⟩ := List.find?_eq_some_iff_append.mp hfind
      exact .inr ⟨front, n, back, rfl, hn, by simpa using hfront⟩

/-- The attribute is the first one of its name, and `locate` finds it behind the last node in
front of it. -/
theorem locate_append_cons {source name : Text} {front back : List Node} {n : Node}
    (hfront : ∀ m ∈ front, m.isNamed source name = false) (hn : n.isNamed source name = true)
    (previous : Option Node) :
    locate source name previous (front ++ n :: back) = (front.getLast?.or previous, some n) := by
  induction front generalizing previous with
  | nil => exact if_pos hn
  | cons m front ih =>
      obtain ⟨hm, hfront⟩ := List.forall_mem_cons.mp hfront
      have hpass : locate source name previous (m :: (front ++ n :: back)) =
          locate source name (some m) (front ++ n :: back) := if_neg (Bool.eq_false_iff.mp hm)
      rw [List.cons_append, hpass, ih hfront, List.getLast?_cons]
      cases front.getLast? <;> rfl

/-- What the splice of an edit can be: an insertion behind the last node, or one in place of the
first attribute of the name. -/
theorem spliceFor_cases {source : Text} {opening : Node} {e : Edit} {s : Splice}
    (h : spliceFor source opening e = .ok s) :
    (∃ last ∈ opening.children, s = ⟨last.stop, last.stop, ' ' :: renderAttribute e.name e.value⟩ ∧
        ∀ n ∈ opening.children, n.isNamed source e.name = false) ∨
      ∃ front previous n back, opening.children = front ++ previous :: n :: back ∧
        n.isNamed source e.name = true ∧
        (∀ m ∈ front ++ [previous], m.isNamed source e.name = false) ∧
        (e.kind = .remove ∧ s = ⟨previous.stop, n.stop, []⟩ ∨
          e.kind ≠ .remove ∧ s = ⟨n.start, n.stop, renderAttribute e.name e.value⟩) := by
  rcases exists_first_named source e.name opening.children with
    hnone | ⟨front, n, back, hchildren, hn, hfront⟩
  · have hmissing : ∀ n ∈ opening.children, n.kind = .attribute →
        n.attributeName source ≠ e.name := by
      intro n hn hkind hname
      exact absurd (hnone n hn) (by simp [Node.isNamed, hkind, hname])
    rw [spliceFor, locate_of_missing hmissing, Option.or_none] at h
    split at h
    · cases h
    · rename_i last hlast hlocated
      obtain ⟨hlast, rfl⟩ := Prod.mk.inj hlocated
      refine .inl ⟨last, List.mem_of_getLast? hlast, ?_, hnone⟩
      cases hkind : e.kind with
      | remove => simp [hkind] at h
      | add | modify =>
          simp only [hkind, Except.ok.injEq] at h
          exact h.symm
  · rw [spliceFor, hchildren, locate_append_cons hfront hn, Option.or_none] at h
    split at h
    · cases h
    · rename_i previous found hlocated
      obtain ⟨hprevious, rfl⟩ := Prod.mk.inj hlocated
      obtain ⟨front, rfl⟩ := List.getLast?_eq_some_iff.mp hprevious
      refine .inr ⟨front, previous, n, back, by simp [hchildren], hn, hfront, ?_⟩
      cases hkind : e.kind with
      | remove =>
          simp only [hkind, Except.ok.injEq] at h
          exact .inl ⟨rfl, h.symm⟩
      | add | modify =>
          simp only [hkind, Except.ok.injEq] at h
          exact .inr ⟨by simp, h.symm⟩

/-- The splice of an edit lies in the tag. -/
theorem spliceFor_inside {source : Text} {opening : Node} {e : Edit} {s : Splice}
    (h : spliceFor source opening e = .ok s) (hnested : opening.Nested) :
    opening.start ≤ s.start ∧ s.start ≤ s.stop ∧ s.stop ≤ opening.stop := by
  rcases spliceFor_cases h with
    ⟨last, hlast, rfl, _⟩ | ⟨front, previous, n, back, hchildren, _, _, hs⟩
  · obtain ⟨hnested, hstart, hstop⟩ := hnested.of_mem_children hlast
    exact ⟨hstart.trans hnested.start_le_stop, le_rfl, hstop⟩
  · obtain ⟨hprevious, hstart, _⟩ := hnested.of_mem_children (m := previous) (by simp [hchildren])
    obtain ⟨hn, _, hstop⟩ := hnested.of_mem_children (m := n) (by simp [hchildren])
    have hbehind : previous.stop ≤ n.start := by
      have hpairs := hnested.children_pairwise
      rw [hchildren] at hpairs
      exact (List.pairwise_cons.mp (List.pairwise_append.mp hpairs).2.1).1 n (by simp)
    have hfirst := hstart.trans hprevious.start_le_stop
    rcases hs with ⟨_, rfl⟩ | ⟨_, rfl⟩
    · exact ⟨hfirst, hbehind.trans hn.start_le_stop, hstop⟩
    · exact ⟨hfirst.trans hbehind, hn.start_le_stop, hstop⟩

/-! ## One edit in a walk over the elements -/

theorem Progress.visit_other {source : Text} {n : Node} {e : Edit} {p : Progress}
    (hpending : p.pending = [e])
    (hother : sameSpot (.ofOffset source n.start) e.position = false) : p.visit source n = p := by
  unfold Progress.visit
  split
  · rfl
  · split
    · rfl
    · have hnone : p.pending.partition (sameSpot (.ofOffset source n.start) ·.position) =
          ([], p.pending) :=
        partition_of_forall (by simpa [hpending] using hother)
      simp only [hnone, List.foldl_nil]

theorem Progress.visit_here {source : Text} {n opening : Node} {e : Edit} {p : Progress}
    (hpending : p.pending = [e]) (hopening : n.opening? = some opening)
    (hhere : sameSpot (.ofOffset source n.start) e.position = true) :
    p.visit source n =
      Progress.edit source opening (.ofOffset source n.start) { p with pending := [] } e := by
  have hwaits : p.pending.isEmpty = false := by simp [hpending]
  have hall : p.pending.partition (sameSpot (.ofOffset source n.start) ·.position) = ([e], []) := by
    rw [hpending, List.partition_eq_filter_filter]
    simp [hhere]
  rw [Progress.visit, hwaits, hopening]
  simp only [Bool.false_eq_true, if_false, hall, List.foldl_cons, List.foldl_nil]

theorem Progress.pending_edit (source : Text) (opening : Node) (spot : Position) (p : Progress)
    (e : Edit) : (Progress.edit source opening spot p e).pending = p.pending := by
  unfold Progress.edit
  split <;> rfl

theorem Progress.visits_done {source : Text} {nodes : List Node} {p : Progress}
    (hpending : p.pending = []) : nodes.foldl (Progress.visit source) p = p := by
  induction nodes with
  | nil => rfl
  | cons n nodes ih =>
      have hvisit : p.visit source n = p := if_pos (by simp [hpending])
      rw [List.foldl_cons, hvisit, ih]

/-- A walk over the elements makes the edit at its own element. -/
theorem Progress.visits_one {source : Text} {nodes : List Node} (h : Staggered source nodes)
    {n opening : Node} (hn : n ∈ nodes) {e : Edit} {p : Progress} (hpending : p.pending = [e])
    (hopening : n.opening? = some opening)
    (hhere : sameSpot (.ofOffset source n.start) e.position = true) :
    nodes.foldl (Progress.visit source) p =
      Progress.edit source opening (.ofOffset source n.start) { p with pending := [] } e := by
  induction nodes with
  | nil => exact absurd hn List.not_mem_nil
  | cons m nodes ih =>
      rw [List.foldl_cons]
      by_cases hsame : n = m
      · subst hsame
        rw [Progress.visit_here hpending hopening hhere,
          Progress.visits_done (Progress.pending_edit ..)]
      · have hlater : n ∈ nodes := (List.mem_cons.mp hn).resolve_left hsame
        have hlt := (List.pairwise_cons.mp h.starts).1 n hlater
        have hspot := sameSpot_ofOffset hlt (h.inside n (by simp [hlater]))
        have hother : sameSpot (.ofOffset source m.start) e.position = false := by
          simp only [sameSpot, Bool.and_eq_true, beq_iff_eq] at hhere hspot ⊢
          rw [← hhere.1, ← hhere.2]
          exact hspot
        rw [Progress.visit_other hpending hother]
        exact ih h.tail hlater

/-! ## The same nodes in print -/

/-- A part of an opening tag as it is written, with the kinds and texts of its own parts. -/
structure Print where
  kind : Kind
  text : Text
  parts : List (Kind × Text)
deriving DecidableEq

def Node.print (source : Text) (n : Node) : Print :=
  ⟨n.kind, n.textIn source, n.children.map fun m => (m.kind, m.textIn source)⟩

namespace Print

def attributeName (p : Print) : Text :=
  match p.parts with
  | (_, name) :: _ => name
  | [] => p.text

def isNamed (name : Text) (p : Print) : Bool :=
  p.kind == .attribute && p.attributeName == name

/-- The name of a tag. -/
def isTagName (p : Print) : Bool :=
  p.kind == .tagName || p.kind == .compoundName

/-- An attribute with a string for its value. -/
def assigned (name value : Text) : Print :=
  ⟨.attribute, renderAttribute name value, [(.attributeName, name), (.string, renderValue value)]⟩

/-- The parts of a tag with an attribute in place of the first of its name, or behind them all. -/
def set (name value : Text) : List Print → List Print
  | [] => [assigned name value]
  | p :: ps => if p.isNamed name then assigned name value :: ps else p :: set name value ps

end Print

theorem attributeName_print (source : Text) (n : Node) :
    (n.print source).attributeName = n.attributeName source := by
  obtain ⟨kind, start, stop, children⟩ := n
  cases children <;> rfl

theorem isNamed_print (source name : Text) (n : Node) :
    (n.print source).isNamed name = n.isNamed source name := by
  rw [Print.isNamed, attributeName_print]
  rfl

/-- The new script has an element where the old one stands, whose opening tag has the parts it had
with one attribute in place of the old one. -/
def Respelled (source : Text) (n : Node) (name value code : Text) (tree : List Node) : Prop :=
  ∃ m ∈ Node.elementsOf tree, m.start = n.start ∧
    ∃ opening ∈ n.opening?, ∃ opening' ∈ m.opening?,
      opening'.children.map (Node.print code) =
        Print.set name value (opening.children.map (Node.print source))

instance (source : Text) (n : Node) (name value code : Text) (tree : List Node) :
    Decidable (Respelled source n name value code tree) :=
  inferInstanceAs (Decidable (∃ m ∈ Node.elementsOf tree, m.start = n.start ∧
    ∃ opening ∈ n.opening?, ∃ opening' ∈ m.opening?,
      opening'.children.map (Node.print code) =
        Print.set name value (opening.children.map (Node.print source))))

/-! ## Reading the attribute -/

/-- What is set stands once among the parts, and behind it nothing has its name if the name was
written at most once. -/
theorem Print.exists_set (name value : Text) (ps : List Print) :
    ∃ front back, Print.set name value ps = front ++ assigned name value :: back ∧
      (ps.countP (isNamed name) ≤ 1 → ∀ p ∈ back, p.isNamed name = false) := by
  induction ps with
  | nil => exact ⟨[], [], rfl, by simp⟩
  | cons p ps ih =>
      by_cases hnamed : p.isNamed name = true
      · refine ⟨[], ps, if_pos hnamed, fun hcount => ?_⟩
        rw [List.countP_cons_of_pos hnamed] at hcount
        have hnone : ps.countP (isNamed name) = 0 := by omega
        simpa using List.countP_eq_zero.mp hnone
      · obtain ⟨front, back, hset, hback⟩ := ih
        refine ⟨p :: front, back, ?_, ?_⟩
        · rw [Print.set, if_neg hnamed, hset]
          rfl
        · rwa [List.countP_cons_of_neg hnamed]

/-- The tag keeps its name. -/
theorem Print.find?_set (name value : Text) (ps : List Print) :
    (Print.set name value ps).find? isTagName = ps.find? isTagName := by
  induction ps with
  | nil => rfl
  | cons p ps ih =>
      rw [Print.set]
      split
      · rename_i hnamed
        have hkind : p.kind = .attribute := by
          rw [isNamed, Bool.and_eq_true, beq_iff_eq] at hnamed
          exact hnamed.1
        have hother : p.isTagName = false := by simp [isTagName, hkind]
        rw [List.find?_cons, List.find?_cons, hother]
        rfl
      · rw [List.find?_cons, List.find?_cons, ih]

theorem Node.map_print_name? (source : Text) (opening : Node) :
    opening.name?.map (Node.print source) =
      (opening.children.map (Node.print source)).find? Print.isTagName := by
  rw [List.find?_map]
  rfl

theorem attributeValue_of_print {source name value : Text} {n : Node} (hquote : '"' ∉ value)
    (h : n.print source = .assigned name value) : attributeValue source n = value := by
  have hparts : n.children.map (fun m => (m.kind, m.textIn source)) =
      [(.attributeName, name), (.string, renderValue value)] := congrArg Print.parts h
  obtain ⟨a, rest, hchildren, _, hrest⟩ := List.map_eq_cons_iff.mp hparts
  obtain ⟨b, rest, rfl, hb, _⟩ := List.map_eq_cons_iff.mp hrest
  obtain ⟨hkind, htext⟩ := Prod.mk.inj hb
  have hrender : renderValue value = '"' :: value ++ ['"'] := if_pos (by simpa using hquote)
  rw [attributeValue, hchildren]
  simp [hkind, htext, hrender, Node.inner]

/-- The value of the attribute that is read of the new tag. -/
theorem get?_attributesOf {source code name value : Text} {opening opening' : Node}
    (hquote : '"' ∉ value) (honce : opening.children.countP (Node.isNamed source name) ≤ 1)
    (hparts : opening'.children.map (Node.print code) =
      Print.set name value (opening.children.map (Node.print source))) :
    Attributes.get? (attributesOf code opening') name = some value := by
  obtain ⟨front, back, hset, hback⟩ :=
    Print.exists_set name value (opening.children.map (Node.print source))
  have hcount : (opening.children.map (Node.print source)).countP (Print.isNamed name) ≤ 1 := by
    rw [List.countP_map]
    refine (Nat.le_of_eq (List.countP_congr ?_)).trans honce
    intro n _
    simp only [Function.comp_apply, isNamed_print]
  rw [hset] at hparts
  obtain ⟨before, rest, hchildren, _, hrest⟩ := List.map_eq_append_iff.mp hparts
  obtain ⟨n, behind, rfl, hn, hbehind⟩ := List.map_eq_cons_iff.mp hrest
  have hkind : n.kind = .attribute := congrArg Print.kind hn
  have hname : n.attributeName code = name := by
    rw [← attributeName_print, hn]
    rfl
  have hwritten : (opening'.toTag code).written =
      ((before.filter (·.kind == .attribute)).map fun m =>
        (m.attributeName code, attributeValue code m)) ++ (name, value) ::
      ((behind.filter (·.kind == .attribute)).map fun m =>
        (m.attributeName code, attributeValue code m)) := by
    simp [Node.toTag, hchildren, hkind, hname, attributeValue_of_print hquote hn]
  rw [attributesOf_eq, hwritten]
  apply Attributes.get?_foldl_set_of_last
  intro p hp
  obtain ⟨m, hm, rfl⟩ := List.mem_map.mp hp
  obtain ⟨hm, hattribute⟩ := List.mem_filter.mp hm
  have hother := hback hcount (m.print code) (by rw [← hbehind]; exact List.mem_map_of_mem hm)
  rw [isNamed_print, Node.isNamed, hattribute, Bool.true_and, beq_eq_false_iff_ne] at hother
  exact hother

/-- The element of a node whose tag is respelled. -/
theorem Respelled.exists_element {source code name value : Text} {n : Node} {tree : List Node}
    (h : Respelled source n name value code tree) {e : Element}
    (he : elementOf? source n = some e) (hquote : '"' ∉ value)
    (honce : ∀ opening ∈ n.opening?, opening.children.countP (Node.isNamed source name) ≤ 1) :
    ∃ m ∈ Node.elementsOf tree, ∃ e', elementOf? code m = some e' ∧
      e'.attribute? name = some value ∧ e'.position = some (.ofOffset code n.start) := by
  obtain ⟨m, hm, hstart, opening, hopening, opening', hopening', hparts⟩ := h
  obtain ⟨_, named, hopen, hname, hkind, htag, htext, _⟩ := elementOf?_cases he
  obtain rfl := Option.some.inj (hopening.symm.trans hopen)
  have hnamed : (opening'.toTag code).passedOver = false := by
    have hsame : opening'.name?.map (Node.print code) = some (named.print source) := by
      rw [Node.map_print_name?, hparts, Print.find?_set, ← Node.map_print_name?, hname]
      rfl
    obtain ⟨named', hname', hprint⟩ := Option.map_eq_some_iff.mp hsame
    have hkind' : named'.kind = .tagName := (congrArg Print.kind hprint).trans hkind
    have htext' : named'.textIn code = e.tag := (congrArg Print.text hprint).trans htext.symm
    simp [Node.toTag, hname', hkind', htext', htag]
  obtain ⟨e', he', hattributes⟩ := exists_elementOf? hopening' hnamed
  obtain ⟨_, _, _, _, _, _, _, _, hposition⟩ := elementOf?_cases he'
  refine ⟨m, hm, e', he', ?_, hposition.trans (by rw [hstart])⟩
  rw [Element.attribute?, hattributes]
  exact get?_attributesOf hquote (honce opening hopening) hparts

/-! ## The revised script -/

section Revised

variable {parser : Parser} {source path : Text} {tree : List Node} {n : Node}

theorem exists_node_of_mem {e : Element} (h : e ∈ (read source path parser).elements) :
    ∃ tree, parser.tree? source path = some tree ∧
      ∃ n ∈ Node.elementsOf tree, elementOf? source n = some e := by
  cases htree : parser.tree? source path with
  | none =>
      rw [read, htree] at h
      exact absurd h List.not_mem_nil
  | some tree =>
      rw [(read_of_tree? htree).1] at h
      exact ⟨tree, rfl, List.mem_filterMap.mp h⟩

/-- An edit of an element that is applied makes one splice, behind the start of the element. -/
theorem revise_one (hordered : parser.Ordered) (hdistinct : parser.Distinct)
    (htree : parser.tree? source path = some tree) (hn : n ∈ Node.elementsOf tree)
    {element : Element} (helement : elementOf? source n = some element) {e : Edit}
    (hplace : e.position = .ofOffset source n.start)
    (happlied : (revise source [e] path parser).applied = [e]) :
    ∃ s : Splice, n.start ≤ s.start ∧ (parser.tree? (s.apply source) path).isSome = true ∧
      revise source [e] path parser = { code := s.apply source, applied := [e] } := by
  obtain ⟨opening, _, hopening, _⟩ := elementOf?_cases helement
  have hhere : sameSpot (.ofOffset source n.start) e.position = true := by
    simp [hplace, sameSpot]
  have hwalk := Progress.visits_one (hordered.staggered hdistinct htree) hn
    (p := { pending := [e] }) rfl hopening hhere
  have hgrouped : grouped [e].length [e] = [e] :=
    grouped_of_distinct (List.pairwise_singleton _ _) _
  rw [← hgrouped] at hwalk
  cases hsplice : spliceFor source opening e with
  | error reason =>
      have hnone : (revise source [e] path parser).applied = [] := by
        rw [revise_eq htree (by simp) hwalk, Progress.edit, hsplice]
        dsimp only
        split <;> rfl
      rw [hnone] at happlied
      cases happlied
  | ok s =>
      obtain ⟨hnested, _, hinside⟩ := (hordered.tree_nested htree).of_mem_elementsOf hn
      obtain ⟨hopens, hfirst, hlast⟩ := hnested.of_mem_children (List.mem_of_find?_eq_some hopening)
      obtain ⟨hstart, _, hstop⟩ := spliceFor_inside hsplice hopens
      have happly : Splice.applyAll source [s] = (s.apply source, []) := by
        have hfits : ¬ source.length < s.stop :=
          Nat.not_lt.mpr ((hstop.trans hlast).trans hinside)
        simp [Splice.applyAll, Splice.backward, Splice.applyBelow, hfits]
      refine ⟨s, hfirst.trans hstart, ?_⟩
      rw [revise_eq htree (by simp) hwalk, Progress.edit, hsplice] at happlied ⊢
      simp only [List.nil_append, happly, List.map_nil] at happlied ⊢
      split at happlied
      · rename_i hclean
        exact ⟨hclean, if_pos hclean⟩
      · cases happlied

/-- An edit that sets an attribute of an element is made without a finding, or not at all. If the
new script has the old tag with that attribute in place of the old one, the element at the same
place has the value. -/
theorem revise_set (hordered : parser.Ordered) (hdistinct : parser.Distinct)
    (htree : parser.tree? source path = some tree) (hn : n ∈ Node.elementsOf tree)
    {element : Element} (helement : elementOf? source n = some element) {e : Edit}
    (hplace : e.position = .ofOffset source n.start) (hquote : '"' ∉ e.value)
    (honce : ∀ opening ∈ n.opening?, opening.children.countP (Node.isNamed source e.name) ≤ 1)
    (happlied : (revise source [e] path parser).applied = [e]) :
    let r := revise source [e] path parser
    r.diagnostics = [] ∧ ∃ newTree, parser.tree? r.code path = some newTree ∧
      (Respelled source n e.name e.value r.code newTree →
        ∃ e' ∈ (read r.code path parser).elements, e'.attribute? e.name = some e.value ∧
          e'.position = some e.position) := by
  obtain ⟨s, hstart, hclean, hr⟩ :=
    revise_one hordered hdistinct htree hn helement hplace happlied
  obtain ⟨newTree, hnew⟩ := Option.isSome_iff_exists.mp hclean
  intro r
  have hr : r = _ := hr
  refine ⟨by rw [hr], newTree, by rw [hr]; exact hnew, fun hrespelled => ?_⟩
  rw [hr] at hrespelled ⊢
  obtain ⟨m, hm, e', he', hvalue, hposition⟩ := hrespelled.exists_element helement hquote honce
  refine ⟨e', ?_, hvalue, ?_⟩
  · rw [(read_of_tree? hnew).1]
    exact List.mem_filterMap.mpr ⟨m, hm, he'⟩
  · have hle := (hordered.staggered hdistinct htree).inside n hn
    have htake : (s.apply source).take n.start = source.take n.start := by
      rw [Splice.apply, List.append_assoc, List.take_append_of_le_length, List.take_take,
        min_eq_left hstart]
      rw [List.length_take]
      omega
    have hinside : n.start ≤ (s.apply source).length := by
      have hlength := congrArg List.length htake
      rw [List.length_take, List.length_take, min_eq_left hle] at hlength
      omega
    rw [hposition, hplace, (Position.ofOffset_isAt hle).eq_of_take_eq
      (Position.ofOffset_isAt hinside) htake]

end Revised

end MarkupIds.Script
