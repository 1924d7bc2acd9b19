import MarkupIds.Engine
import MarkupIds.Proofs.Script.Overwrite
import MarkupIds.Proofs.Sfc.Partition
import MarkupIds.Proofs.Sfc.Region
import MarkupIds.Proofs.Sfc.Site
import MarkupIds.Proofs.Text.Numeral

/-!
# Where elements stand

The position of every element is the one that counting gives, whichever way it was found. Elements
are listed in the order of their offsets, so no two of them are written with the same line and
column.
-/

namespace MarkupIds

/-! ## Written lines and columns -/

namespace Text

theorem ofInt_injective : Function.Injective ofInt := by
  have habs : ∀ m n : ℤ, decimal m.natAbs = decimal n.natAbs → m.natAbs = n.natAbs :=
    fun m n h => ofNat_injective (by decide) (by decide) h
  have hsign : ∀ (m : ℕ) (t : Text), decimal m ≠ '-' :: t := by
    intro m t h
    exact not_mem_decimal (c := '-') rfl m (h ▸ List.mem_cons_self)
  intro m n h
  unfold ofInt at h
  split at h <;> split at h
  · have hsame := habs m n (List.cons.inj h).2
    omega
  · exact absurd h.symm (hsign _ _)
  · exact absurd h (hsign _ _)
  · have hsame := habs m n h
    omega

theorem colon_not_mem_ofInt (n : ℤ) : ':' ∉ ofInt n := by
  unfold ofInt
  split
  · simpa using not_mem_decimal (c := ':') rfl n.natAbs
  · exact not_mem_decimal rfl _

end Text

/-- Positions are written alike only if they have line and column in common. -/
theorem Position.key_inj {p q : Position} (h : p.key = q.key) :
    p.line = q.line ∧ p.column = q.column := by
  have hline : ∀ r : Position, r.key.takeWhile (· != ':') = Text.ofInt r.line := fun r =>
    Text.takeWhile_append_stop (Text.bne_of_not_mem (Text.colon_not_mem_ofInt _)) (by simp)
  have hcolumn : ∀ r : Position, r.key.dropWhile (· != ':') = ':' :: Text.ofInt r.column := fun r =>
    Text.dropWhile_append_stop (Text.bne_of_not_mem (Text.colon_not_mem_ofInt _)) (by simp)
  constructor
  · apply Text.ofInt_injective
    rw [← hline, ← hline, h]
  · have hrest := (hcolumn p).symm.trans ((congrArg _ h).trans (hcolumn q))
    exact Text.ofInt_injective (List.cons.inj hrest).2

/-! ## Elements in order -/

/-- Both elements have the positions of offsets in the source, and the first offset is smaller. -/
def PrecedesIn (source : Text) (a b : Element) : Prop :=
  ∃ i j p q, a.position = some p ∧ p.IsAt source i ∧ b.position = some q ∧ q.IsAt source j ∧
    i < j ∧ j < source.length

theorem PrecedesIn.offset_lt {source : Text} {a b : Element} (h : PrecedesIn source a b) :
    ∃ p q, a.position = some p ∧ b.position = some q ∧ p.offset < q.offset ∧ p.key ≠ q.key := by
  obtain ⟨i, j, p, q, ha, hp, hb, hq, hlt, hj⟩ := h
  refine ⟨p, q, ha, hb, ?_, fun hkey => ?_⟩
  · rw [hp.offset, hq.offset]
    exact_mod_cast hlt
  · obtain ⟨hline, hcolumn⟩ := Position.key_inj hkey
    rcases hp.spot_ne hq hlt hj.le with hne | hne
    · exact hne hline
    · exact hne hcolumn

/-! ## Scripts -/

namespace Script

variable {parser : Parser} {source path : Text} {tree : List Node}

/-- A node with an element holds the name of its tag. -/
theorem start_lt_stop_of_elementOf? {n : Node} (h : n.Nested) {e : Element}
    (he : elementOf? source n = some e) : n.start < n.stop := by
  obtain ⟨opening, name, hopening, hname, _, htag, htext, _⟩ := elementOf?_cases he
  obtain ⟨hopens, hstart, hstop⟩ := h.of_mem_children (List.mem_of_find?_eq_some hopening)
  obtain ⟨_, hfirst, hlast⟩ := hopens.of_mem_children (List.mem_of_find?_eq_some hname)
  have hfilled : name.start < name.stop := by
    rw [htext, Node.textIn] at htag
    by_contra hempty
    exact htag (by simp [Nat.sub_eq_zero_of_le (Nat.not_lt.mp hempty)])
  omega

theorem Parser.Ordered.exists_isAt (hordered : parser.Ordered)
    (htree : parser.tree? source path = some tree) {n : Node} (hn : n ∈ Node.elementsOf tree)
    {e : Element} (he : elementOf? source n = some e) :
    n.start < n.stop ∧ n.start < source.length ∧
      ∃ p, e.position = some p ∧ p.IsAt source n.start := by
  obtain ⟨hnested, _, hstop⟩ := (hordered.tree_nested htree).of_mem_elementsOf hn
  have hfilled := start_lt_stop_of_elementOf? hnested he
  have hlt : n.start < source.length := hfilled.trans_le hstop
  exact ⟨hfilled, hlt, _, position_of_elementOf? he, Position.ofOffset_isAt hlt.le⟩

theorem exists_isAt_of_mem (hordered : parser.Ordered) {e : Element}
    (h : e ∈ (read source path parser).elements) :
    ∃ i p, e.position = some p ∧ p.IsAt source i ∧ i < source.length := by
  obtain ⟨tree, htree, n, hn, he⟩ := exists_node_of_mem h
  obtain ⟨_, hlt, p, hposition, hat⟩ := hordered.exists_isAt htree hn he
  exact ⟨n.start, p, hposition, hat, hlt⟩

theorem read_precedes (hordered : parser.Ordered) (hleads : parser.Leads) (source path : Text) :
    (read source path parser).elements.Pairwise (PrecedesIn source) := by
  cases htree : parser.tree? source path with
  | none =>
      rw [read, htree]
      exact List.Pairwise.nil
  | some tree =>
      have hinside := hleads.start_lt hordered htree
      have hplace {n : Node} (hn : n ∈ Node.elementsOf tree) {e : Element}
          (he : elementOf? source n = some e) := hordered.exists_isAt htree hn he
      rw [(read_of_tree? htree).1, List.pairwise_filterMap]
      rw [← Node.elements_other 0 source.length tree] at hinside hplace ⊢
      have hnested := hordered.tree_nested htree
      -- Elements inside others start behind them, all others behind the ends of those in front.
      have hprecedes {m n : Node} (hm : m ∈ Node.elements (.mk .other 0 source.length tree))
          (hn : n ∈ Node.elements (.mk .other 0 source.length tree))
          (hlt : m.start < m.stop → m.start < n.start) (a : Element)
          (ha : elementOf? source m = some a) (b : Element) (hb : elementOf? source n = some b) :
          PrecedesIn source a b := by
        obtain ⟨hfilled, _, p, hp, hat⟩ := hplace hm ha
        obtain ⟨_, hend, q, hq, hat'⟩ := hplace hn hb
        exact ⟨m.start, n.start, p, q, hp, hat, hq, hat', hlt hfilled, hend⟩
      refine hnested.elements_pairwise ?_ ?_
      · exact fun m hm n hn hin => hprecedes hm hn fun _ => hinside m hm n hin
      · exact fun m hm n hn hle => hprecedes hm hn fun hlt => hlt.trans_le hle

end Script

/-! ## Components -/

namespace Sfc

/-! ### Lines in the file -/

theorem count_flatMap_break {pieces : List Text} (h : ∀ piece ∈ pieces, '\n' ∉ piece) :
    (pieces.flatMap (· ++ ['\n'])).count '\n' = pieces.length := by
  induction pieces with
  | nil => rfl
  | cons piece pieces ih =>
      rw [List.forall_mem_cons] at h
      rw [List.flatMap_cons, List.count_append, List.count_append, List.count_eq_zero.mpr h.1,
        ih h.2, List.length_cons]
      simp [Nat.add_comm]

theorem length_flatMap_break (pieces : List Text) :
    (pieces.flatMap (· ++ ['\n'])).length = extent pieces := by
  induction pieces with
  | nil => rfl
  | cons piece pieces ih =>
      rw [List.flatMap_cons, List.length_append, ih, List.length_append, extent_cons]
      rfl

theorem rtakeWhile_flatMap_break (pieces : List Text) :
    (pieces.flatMap (· ++ ['\n'])).rtakeWhile (· != '\n') = [] := by
  induction pieces using List.reverseRecOn with
  | nil => rfl
  | append_singleton pieces piece =>
      rw [List.flatMap_append, List.flatMap_singleton, ← List.append_assoc]
      exact List.rtakeWhile_concat_neg _ _ _ (by simp)

/-- A line of a text stands behind as many line feeds as there are lines above it. -/
theorem exists_line_split {source line : Text} {k : ℕ}
    (h : (Text.split '\n' source)[k]? = some line) :
    ∃ front back, source = front ++ (line ++ back) ∧ front.length = lineStart source (k + 1) ∧
      front.count '\n' = k ∧ front.rtakeWhile (· != '\n') = [] := by
  obtain ⟨hk, hline⟩ := List.getElem?_eq_some_iff.mp h
  have hsplit : Text.split '\n' source =
      (Text.split '\n' source).take k ++ line :: (Text.split '\n' source).drop (k + 1) := by
    rw [← hline, List.getElem_cons_drop, List.take_append_drop]
  have hbreak : ∀ piece ∈ (Text.split '\n' source).take k, '\n' ∉ piece :=
    fun piece hpiece => Text.not_mem_of_mem_split (List.mem_of_mem_take hpiece)
  refine ⟨((Text.split '\n' source).take k).flatMap (· ++ ['\n']),
    ((Text.split '\n' source).drop (k + 1)).flatMap (['\n'] ++ ·), ?_, length_flatMap_break _, ?_,
    rtakeWhile_flatMap_break _⟩
  · rw [← Text.join_cons, ← Text.join_append_cons, ← hsplit, Text.join_split]
  · rw [count_flatMap_break hbreak, List.length_take, min_eq_left hk.le]

/-- A column of a line has the position that the line and its start give it. -/
theorem isAt_of_line {source line : Text} {k column : ℕ}
    (h : (Text.split '\n' source)[k]? = some line) (hcolumn : column < line.length) :
    (⟨k + 1, column + 1, lineStart source (k + 1) + column⟩ : Position).IsAt source
        (lineStart source (k + 1) + column) ∧
      lineStart source (k + 1) + column < source.length ∧
      line.drop column <+: source.drop (lineStart source (k + 1) + column) := by
  have hbreak : '\n' ∉ line.take column := fun hmem =>
    Text.not_mem_of_mem_split (List.mem_of_getElem? h) (List.mem_of_mem_take hmem)
  obtain ⟨front, back, hsource, hlength, hcount, hlast⟩ := exists_line_split h
  have htake : source.take (front.length + column) = front ++ line.take column := by
    rw [hsource, List.take_length_add_append, List.take_append_of_le_length hcolumn.le]
  rw [← hlength]
  refine ⟨⟨?_, ?_, ?_⟩, ?_, ?_⟩
  · rw [htake, List.count_append, hcount, List.count_eq_zero.mpr hbreak, Nat.add_zero]
  · rw [htake, rtakeWhile_append_of_not_mem _ hbreak, hlast, List.nil_append, List.length_take,
      min_eq_left hcolumn.le]
  · exact (Nat.cast_add _ _).symm
  · rw [hsource, List.length_append, List.length_append]
    omega
  · rw [hsource, List.drop_length_add_append, List.drop_append_of_le_length hcolumn.le]
    exact List.prefix_append _ _

/-- The lines of a section are lines of the file. -/
theorem Section.Stands.getElem?_openLine_add {lines : List Text} {s : Section}
    (h : s.Stands lines) {i : ℕ} {line : Text} (hline : s.lines[i]? = some line) :
    lines[s.openLine + i]? = some line := by
  obtain ⟨below, hbelow⟩ := h.lines_prefix
  rw [← List.getElem?_drop, ← hbelow,
    List.getElem?_append_left (List.getElem?_eq_some_iff.mp hline).1, hline]

theorem extent_append (front back : List Text) :
    extent (front ++ back) = extent front + extent back := by
  induction front with
  | nil => exact (Nat.zero_add _).symm
  | cons line front ih =>
      rw [List.cons_append, extent_cons, ih, extent_cons, Nat.add_assoc (line.length + 1)]

theorem extent_take_maskLines (inside : Bool) (lines : List Text) (i : ℕ) :
    extent (((maskLines inside lines).map (·.1)).take i) = extent (lines.take i) := by
  have hlengths : ((maskLines inside lines).map (·.1)).map (·.length + 1) =
      lines.map (·.length + 1) := by
    simpa [Function.comp_def] using congrArg (List.map (· + 1)) (map_length_maskLines inside lines)
  rw [extent, List.map_take, hlengths, ← List.map_take, extent]

/-- The offsets at which the lines of a section start are found by adding up masked lines. -/
theorem Section.Stands.lineStart_add {source : Text} {s : Section}
    (h : s.Stands (Text.split '\n' source)) {i : ℕ} (hi : i ≤ s.lines.length) (inside : Bool) :
    lineStart source s.startLine + extent (((maskLines inside s.lines).map (·.1)).take i) =
      lineStart source (s.openLine + i + 1) := by
  obtain ⟨below, hbelow⟩ := h.lines_prefix
  have hlines : (Text.split '\n' source).take (s.openLine + i) =
      (Text.split '\n' source).take s.openLine ++ s.lines.take i := by
    rw [List.take_add, ← hbelow, List.take_append_of_le_length hi]
  have hstart : ∀ n, lineStart source (n + 1) = extent ((Text.split '\n' source).take n) :=
    fun n => rfl
  rw [extent_take_maskLines, startLine, hstart, hstart, hlines, extent_append]

/-! ### Masked lines -/

/-- What masking leaves of a line is the line, or blanks. -/
theorem forall₂_maskLine (inside : Bool) (line : Text) :
    List.Forall₂ (fun c d => d = ' ' ∨ d = c) line (maskLine inside line).1 := by
  fun_induction maskLine inside line <;> simp_all

/-- A text without blanks that is left on a masked line is written there. -/
theorem prefix_of_masked {text raw masked : Text}
    (h : List.Forall₂ (fun c d => d = ' ' ∨ d = c) raw masked) (htext : text <+: masked)
    (hblank : ' ' ∉ text) : text <+: raw := by
  induction text generalizing raw masked with
  | nil => exact List.nil_prefix
  | cons c text ih =>
      cases h with
      | nil => exact absurd htext (by simp)
      | cons hc hrest =>
          obtain ⟨rfl, htail⟩ := List.cons_prefix_cons.mp htext
          simp only [List.mem_cons, not_or] at hblank
          obtain rfl := hc.resolve_left (Ne.symm hblank.1)
          exact List.cons_prefix_cons.mpr ⟨rfl, ih hrest htail hblank.2⟩

theorem OpenTag.Sound.space_not_mem_name {t : OpenTag} (h : t.Sound) : ' ' ∉ t.name := by
  obtain ⟨c, cs, hname, hletter, htail⟩ := h.name
  rw [hname]
  intro hspace
  rcases List.mem_cons.mp hspace with rfl | hspace
  · exact absurd hletter (by decide)
  · exact absurd (htail ' ' hspace) (by decide)

/-- A tag that is read on a masked line has its bracket and its name on the line itself. -/
theorem name_prefix_of_mem_openTags {inside : Bool} {raw after : Text} {fuel column : ℕ}
    {t : OpenTag} (h : (column, t, after) ∈ openTags fuel 0 (maskLine inside raw).1) :
    '<' :: t.name <+: raw.drop column := by
  obtain ⟨front, hmasked, hcolumn, ht⟩ := exists_of_mem_openTags h
  rw [Nat.zero_add] at hcolumn
  refine prefix_of_masked (List.forall₂_drop column (forall₂_maskLine inside raw)) ?_ ?_
  · rw [hmasked, hcolumn, List.drop_left, OpenTag.render_eq]
    simp
  · simpa using ht.space_not_mem_name

/-! ### Elements of a component -/

theorem exists_isAt_of_mem {source path : Text} {e : Element}
    (h : e ∈ (read source path).elements) :
    ∃ i p, e.position = some p ∧ p.IsAt source i ∧ i < source.length ∧
      '<' :: e.tag <+: source.drop i := by
  rw [read] at h
  split at h
  · rename_i template htemplate
    have hstands : template.Stands (Text.split '\n' source) := by
      obtain ⟨closed, last, hsections, hwalked⟩ := exists_walked source
      exact hwalked.stands _ (hsections ▸ List.mem_of_find?_eq_some htemplate)
    obtain ⟨i, masked, hmasked, he⟩ := exists_place_of_mem_elementsFrom h
    obtain ⟨column, t, after, hfound, _, rfl⟩ := mem_lineElements.mp he
    obtain ⟨raw, hraw, rfl⟩ : ∃ raw, template.lines[i]? = some raw ∧
        (maskLine (openBehind false (template.lines.take i)) raw).1 = masked := by
      rw [List.getElem?_map, getElem?_maskLines, Option.map_map] at hmasked
      exact Option.map_eq_some_iff.mp hmasked
    have hname := name_prefix_of_mem_openTags hfound
    have hcolumn : column < raw.length := by
      have hlength := hname.length_le
      rw [List.length_cons, List.length_drop] at hlength
      omega
    -- The reader adds up masked lines from the start of the section on.
    have hrow : template.startLine + i = template.openLine + i + 1 := Nat.add_right_comm _ _ _
    obtain ⟨hat, hlt, htail⟩ := isAt_of_line (hstands.getElem?_openLine_add hraw) hcolumn
    rw [hstands.lineStart_add (List.getElem?_eq_some_iff.mp hraw).1.le, hrow]
    exact ⟨_, _, rfl, by exact_mod_cast hat, hlt, hname.trans htail⟩
  · exact absurd h List.not_mem_nil

theorem read_precedes (source path : Text) :
    (read source path).elements.Pairwise (PrecedesIn source) := by
  refine (read_pairwise source path).imp_of_mem ?_
  rintro a b ha hb ⟨p, q, hp, hq, hbefore⟩
  obtain ⟨i, _, hposition, hi, hlt, _⟩ := exists_isAt_of_mem ha
  obtain rfl := Option.some.inj (hp.symm.trans hposition)
  obtain ⟨j, _, hposition', hj, hlt', _⟩ := exists_isAt_of_mem hb
  obtain rfl := Option.some.inj (hq.symm.trans hposition')
  exact ⟨i, j, p, q, hp, hi, hq, hj, hi.offset_lt hj hlt.le hbefore, hlt'⟩

end Sfc

/-! ## Every source -/

/-- A position found by bytes is the one that counting characters gives, and the shortcut for texts
of single bytes agrees with decoding. Every element has such a position, the elements of a component
where their tags are written. They stand in the order of their offsets, and no two of them are
written with the same line and column. -/
theorem positions_exact (source : Text) (parser : Script.Parser) :
    (∀ i ≤ source.length,
      ((OffsetMap.ofText source).position (Text.encode (source.take i)).length).IsAt source i) ∧
    (∀ byte ≤ (Text.encode source).length, (OffsetMap.ofText source).charOffset byte =
      (Text.decode ((Text.encode source).take byte)).length) ∧
    (∀ (f : Framework) (path : Text), (f = .react → parser.Ordered) →
      ∀ e ∈ (f.read source path parser).elements,
        ∃ i p, e.position = some p ∧ p.IsAt source i ∧ i < source.length ∧
          (f = .vue → '<' :: e.tag <+: source.drop i)) ∧
    ∀ (f : Framework) (path : Text), (f = .react → parser.Ordered ∧ parser.Leads) →
      (f.read source path parser).elements.Pairwise fun a b =>
        ∃ p q, a.position = some p ∧ b.position = some q ∧ p.offset < q.offset ∧
          p.key ≠ q.key := by
  refine ⟨fun i hi => Position.ofOffset_isAt hi,
    fun byte hbyte => OffsetMap.charOffset_eq_length_decode hbyte, ?_, ?_⟩
  · intro f path hparser e he
    cases f with
    | react =>
        obtain ⟨i, p, hposition, hat, hlt⟩ := Script.exists_isAt_of_mem (hparser rfl) he
        exact ⟨i, p, hposition, hat, hlt, nofun⟩
    | vue =>
        obtain ⟨i, p, hposition, hat, hlt, htag⟩ := Sfc.exists_isAt_of_mem he
        exact ⟨i, p, hposition, hat, hlt, fun _ => htag⟩
  · intro f path hparser
    cases f with
    | react =>
        obtain ⟨hordered, hleads⟩ := hparser rfl
        exact (Script.read_precedes hordered hleads source path).imp PrecedesIn.offset_lt
    | vue => exact (Sfc.read_precedes source path).imp PrecedesIn.offset_lt

/-- A character of two bytes and a tag in a comment stand in front of the only element of a
component, and such a character between the elements of a script. -/
theorem positions_exact_multibyte :
    (let source := "<template>\né<!-- <b> --><i>\n</template>".toList
     (Text.encode (source.take 12)).length = 13 ∧
       ((OffsetMap.ofText source).position 13).IsAt source 12 ∧
       ∃ e ∈ (Framework.vue.read source [] .bundled).elements, ∃ i p, e.position = some p ∧
         p.IsAt source i ∧ '<' :: e.tag <+: source.drop i) ∧
    let source := "<a>é<b/></a>".toList
    ∃ a b, (Framework.react.read source [] .bundled).elements = [a, b] ∧
      ∃ p q, a.position = some p ∧ b.position = some q ∧ p.offset < q.offset ∧ p.key ≠ q.key := by
  constructor
  · intro source
    obtain ⟨hbytes, _, helements, _⟩ := positions_exact source .bundled
    have hwidth : (Text.encode (source.take 12)).length = 13 := by decide +kernel
    have hat := hbytes 12 (by decide +kernel)
    rw [hwidth] at hat
    obtain ⟨e, he⟩ : ∃ e, e ∈ (Framework.vue.read source [] .bundled).elements :=
      List.exists_mem_of_ne_nil _ (by decide +kernel)
    obtain ⟨i, p, hposition, hp, _, htag⟩ :=
      helements .vue [] (fun hreact => absurd hreact (by decide)) e he
    exact ⟨hwidth, hat, e, he, i, p, hposition, hp, htag rfl⟩
  · intro source
    obtain ⟨_, _, _, hpairs⟩ := positions_exact source .bundled
    have hpairs := hpairs .react [] fun _ =>
      ⟨Script.Parser.bundled_ordered, Script.Parser.bundled_leads⟩
    have htwo : (Framework.react.read source [] .bundled).elements.length = 2 := by decide +kernel
    obtain ⟨a, b, hread⟩ := List.length_eq_two.mp htwo
    rw [hread] at hpairs
    exact ⟨a, b, hread, (List.pairwise_cons.mp hpairs).1 b (by simp)⟩

end MarkupIds
