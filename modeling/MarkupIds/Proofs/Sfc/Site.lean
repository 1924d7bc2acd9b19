import MarkupIds.Proofs.Sfc.Growth
import MarkupIds.Sfc.Reader

/-!
# Where the elements of a component stand

Every element that is read off a component is a tag on a masked line of its template. On one line
the tags stand one behind the other, so elements are listed in the order of their places.
-/

namespace MarkupIds.Sfc

/-! ## Lines behind comments -/

/-- Whether a comment is open behind some lines. -/
def openBehind (inside : Bool) (lines : List Text) : Bool :=
  lines.foldl (fun inside line => (maskLine inside line).2) inside

/-- Each line is masked by whether a comment is open behind the lines above it. -/
theorem getElem?_maskLines (inside : Bool) (lines : List Text) (i : ℕ) :
    (maskLines inside lines)[i]? = lines[i]?.map (maskLine (openBehind inside (lines.take i))) := by
  induction lines generalizing inside i with
  | nil => rfl
  | cons line lines ih =>
      cases i with
      | zero => rfl
      | succ i => exact ih (maskLine inside line).2 i

/-! ## Tags of a line -/

theorem le_of_mem_openTags {fuel n column : ℕ} {cs after : Text} {t : OpenTag}
    (h : (column, t, after) ∈ openTags fuel n cs) : n ≤ column := by
  obtain ⟨front, _, rfl, _⟩ := exists_of_mem_openTags h
  exact Nat.le_add_right n front.length

/-- The tags of a line stand one behind the other. -/
theorem openTags_pairwise (fuel n : ℕ) (cs : Text) :
    (openTags fuel n cs).Pairwise fun a b => a.1 + a.2.1.render.length ≤ b.1 := by
  induction fuel generalizing n cs with
  | zero => exact List.Pairwise.nil
  | succ fuel ih =>
      rw [openTags.eq_def]
      dsimp only
      split
      · rename_i t rest hread
        obtain ⟨_, rfl⟩ := openTag?_sound hread
        refine List.pairwise_cons.mpr ⟨?_, ih _ _⟩
        intro b hb
        have hlater := le_of_mem_openTags hb
        rwa [List.length_append, Nat.add_sub_cancel_right] at hlater
      · split
        · exact List.Pairwise.nil
        · exact ih _ _

/-- Of two tags of a line one stands behind the other. -/
theorem openTags_apart {fuel n : ℕ} {cs : Text} {a b : ℕ × OpenTag × Text}
    (ha : a ∈ openTags fuel n cs) (hb : b ∈ openTags fuel n cs) :
    a = b ∨ a.1 + a.2.1.render.length ≤ b.1 ∨ b.1 + b.2.1.render.length ≤ a.1 := by
  have hbehind := List.pairwise_iff_getElem.mp (openTags_pairwise fuel n cs)
  obtain ⟨i, hi, rfl⟩ := List.mem_iff_getElem.mp ha
  obtain ⟨j, hj, rfl⟩ := List.mem_iff_getElem.mp hb
  rcases Nat.lt_trichotomy i j with hlt | rfl | hlt
  · exact .inr (.inl (hbehind i j hi hj hlt))
  · exact .inl rfl
  · exact .inr (.inr (hbehind j i hj hi hlt))

/-! ## Elements -/

theorem mem_lineElements {line offset : ℕ} {masked : Text} {e : Element} :
    e ∈ lineElements line offset masked ↔
      ∃ column t after, (column, t, after) ∈ openTags (masked.length + 1) 0 masked ∧
        t.selfClosing = false ∧ e = tagElement line offset column t after := by
  simp only [lineElements, List.mem_map, List.mem_filter, Bool.not_eq_true', Prod.exists]
  constructor
  · rintro ⟨column, t, after, ⟨hfound, hopen⟩, rfl⟩
    exact ⟨column, t, after, hfound, hopen, rfl⟩
  · rintro ⟨column, t, after, hfound, hopen, rfl⟩
    exact ⟨column, t, after, ⟨hfound, hopen⟩, rfl⟩

/-- How many characters some lines take, with the line feeds behind them. -/
def extent (lines : List Text) : ℕ :=
  (lines.map (·.length + 1)).foldr (· + ·) 0

theorem extent_cons (line : Text) (lines : List Text) :
    extent (line :: lines) = line.length + 1 + extent lines := rfl

/-- An element stands on one of the lines, at the offset where the lines above end. -/
theorem exists_place_of_mem_elementsFrom {line offset : ℕ} {lines : List Text} {e : Element}
    (h : e ∈ elementsFrom line offset lines) :
    ∃ i masked, lines[i]? = some masked ∧
      e ∈ lineElements (line + i) (offset + extent (lines.take i)) masked := by
  induction lines generalizing line offset with
  | nil => exact absurd h List.not_mem_nil
  | cons masked lines ih =>
      rcases List.mem_append.mp h with hhere | hbelow
      · exact ⟨0, masked, rfl, hhere⟩
      · obtain ⟨i, masked', hline, he⟩ := ih hbelow
        refine ⟨i + 1, masked', hline, ?_⟩
        rw [List.take_succ_cons, extent_cons]
        rwa [Nat.add_right_comm line, Nat.add_assoc line, Nat.add_assoc offset,
          Nat.add_assoc offset] at he

theorem exists_line_of_mem_elementsFrom {line offset : ℕ} {lines : List Text} {e : Element}
    (h : e ∈ elementsFrom line offset lines) :
    ∃ i masked offset', lines[i]? = some masked ∧ e ∈ lineElements (line + i) offset' masked := by
  obtain ⟨i, masked, hline, he⟩ := exists_place_of_mem_elementsFrom h
  exact ⟨i, masked, _, hline, he⟩

theorem exists_offset_of_line (line offset : ℕ) {i : ℕ} {lines : List Text} {masked : Text}
    (h : lines[i]? = some masked) :
    ∃ offset', ∀ e ∈ lineElements (line + i) offset' masked, e ∈ elementsFrom line offset lines := by
  induction lines generalizing line offset i with
  | nil => exact nomatch h
  | cons first lines ih =>
      cases i with
      | zero =>
          obtain rfl : first = masked := by simpa using h
          exact ⟨offset, fun e he => List.mem_append_left _ he⟩
      | succ i =>
          obtain ⟨offset', hmem⟩ := ih (line + 1) (offset + first.length + 1) h
          refine ⟨offset', fun e he => List.mem_append_right _ (hmem e ?_)⟩
          rwa [Nat.add_right_comm, Nat.add_assoc]

/-- The first element has a place in front of the second one. -/
def StandsBefore (a b : Element) : Prop :=
  ∃ p q : Position, a.position = some p ∧ b.position = some q ∧
    (p.line < q.line ∨ p.line = q.line ∧ p.column < q.column)

theorem lineElements_pairwise (line offset : ℕ) (masked : Text) :
    (lineElements line offset masked).Pairwise StandsBefore := by
  rw [lineElements, List.pairwise_map]
  refine ((openTags_pairwise _ 0 masked).filter _).imp ?_
  intro a b hbehind
  have hpos : 0 < a.2.1.render.length := by simp [OpenTag.render_eq]
  refine ⟨_, _, rfl, rfl, .inr ⟨rfl, ?_⟩⟩
  push_cast
  omega

theorem elementsFrom_pairwise (line offset : ℕ) (lines : List Text) :
    (elementsFrom line offset lines).Pairwise StandsBefore := by
  induction lines generalizing line offset with
  | nil => exact List.Pairwise.nil
  | cons masked lines ih =>
      refine List.pairwise_append.mpr ⟨lineElements_pairwise line offset masked, ih _ _, ?_⟩
      intro a ha b hb
      obtain ⟨i, masked', offset', _, hb⟩ := exists_line_of_mem_elementsFrom hb
      obtain ⟨column, t, after, _, _, rfl⟩ := mem_lineElements.mp ha
      obtain ⟨column', t', after', _, _, rfl⟩ := mem_lineElements.mp hb
      refine ⟨_, _, rfl, rfl, .inl ?_⟩
      push_cast
      omega

theorem read_pairwise (source path : Text) :
    (read source path).elements.Pairwise StandsBefore := by
  rw [read]
  split
  · exact elementsFrom_pairwise _ _ _
  · exact List.Pairwise.nil

/-! ## Sites -/

/-- An open tag that is read off a component: its line of the template, as it is written and as it
is masked, its column, and what follows it. -/
structure Site (source : Text) where
  template : Section
  index : ℕ
  raw : Text
  masked : Text
  column : ℕ
  tag : OpenTag
  after : Text
  template_eq : section? source "template" = some template
  raw_eq : template.lines[index]? = some raw
  masked_eq : ((maskLines false template.lines).map (·.1))[index]? = some masked
  found : (column, tag, after) ∈ openTags (masked.length + 1) 0 masked
  unclosed : tag.selfClosing = false

namespace Site

variable {source : Text}

/-- The element is the tag at this site. -/
def Shows (s : Site source) (e : Element) : Prop :=
  ∃ offset, e = tagElement (s.template.startLine + s.index) offset s.column s.tag s.after

theorem exists_of_mem {path : Text} {e : Element} (h : e ∈ (read source path).elements) :
    ∃ s : Site source, s.Shows e := by
  rw [read] at h
  split at h
  · rename_i template htemplate
    obtain ⟨i, masked, offset, hmasked, he⟩ := exists_line_of_mem_elementsFrom h
    obtain ⟨column, t, after, hfound, hopen, rfl⟩ := mem_lineElements.mp he
    obtain ⟨raw, hraw⟩ : ∃ raw, template.lines[i]? = some raw := by
      rw [List.getElem?_map, getElem?_maskLines, Option.map_map] at hmasked
      exact ⟨_, (Option.map_eq_some_iff.mp hmasked).choose_spec.1⟩
    exact ⟨⟨template, i, raw, masked, column, t, after, htemplate, hraw, hmasked, hfound, hopen⟩,
      offset, rfl⟩
  · exact absurd h List.not_mem_nil

theorem exists_element (s : Site source) (path : Text) :
    ∃ e ∈ (read source path).elements, s.Shows e := by
  obtain ⟨offset, hmem⟩ := exists_offset_of_line s.template.startLine
    (lineStart source s.template.startLine) s.masked_eq
  refine ⟨_, ?_, offset, rfl⟩
  rw [read, s.template_eq]
  exact hmem _ (mem_lineElements.mpr ⟨s.column, s.tag, s.after, s.found, s.unclosed, rfl⟩)

theorem template_unique (s s' : Site source) : s.template = s'.template :=
  Option.some.inj (s.template_eq.symm.trans s'.template_eq)

theorem line_unique {s s' : Site source} (h : s.index = s'.index) :
    s.raw = s'.raw ∧ s.masked = s'.masked := by
  have hraw := s.raw_eq
  have hmasked := s.masked_eq
  rw [h, s.template_unique s'] at hraw hmasked
  exact ⟨Option.some.inj (hraw.symm.trans s'.raw_eq),
    Option.some.inj (hmasked.symm.trans s'.masked_eq)⟩

/-- A tag ends in front of the next one of its line. -/
theorem end_le {s s' : Site source} (hindex : s.index = s'.index)
    (hcolumn : s.column < s'.column) : s.column + s.tag.render.length ≤ s'.column := by
  have hfound := s.found
  rw [(line_unique hindex).2] at hfound
  rcases openTags_apart hfound s'.found with heq | hbehind | hbehind
  · exact absurd (congrArg Prod.fst heq) hcolumn.ne
  · exact hbehind
  · dsimp only at hbehind
    omega

/-- A place has one site. -/
theorem eq_of_place {s s' : Site source} (hindex : s.index = s'.index)
    (hcolumn : s.column = s'.column) : s = s' := by
  have htemplate := s.template_unique s'
  obtain ⟨hraw, hmasked⟩ := line_unique hindex
  have hfound := s.found
  rw [hmasked] at hfound
  have hsame : (s.column, s.tag, s.after) = (s'.column, s'.tag, s'.after) := by
    have hpos : 0 < s.tag.render.length := by simp [OpenTag.render_eq]
    have hpos' : 0 < s'.tag.render.length := by simp [OpenTag.render_eq]
    rcases openTags_apart hfound s'.found with heq | hbehind | hbehind
    · exact heq
    · dsimp only at hbehind
      omega
    · dsimp only at hbehind
      omega
  obtain ⟨_, htag, hafter⟩ : _ ∧ s.tag = s'.tag ∧ s.after = s'.after := by simpa using hsame
  cases s
  cases s'
  congr

/-- An element has one site. -/
theorem eq_of_shows {s s' : Site source} {e : Element} (h : s.Shows e) (h' : s'.Shows e) :
    s = s' := by
  obtain ⟨offset, he⟩ := h
  obtain ⟨offset', he'⟩ := h'
  have hposition := congrArg Element.position (he.symm.trans he')
  simp only [tagElement, Option.some.injEq, Position.mk.injEq, s.template_unique s'] at hposition
  exact eq_of_place (by omega) (by omega)

/-- Whether a comment is open in front of the line. -/
def inside (s : Site source) : Bool :=
  openBehind false (s.template.lines.take s.index)

theorem maskLine_raw (s : Site source) : (maskLine s.inside s.raw).1 = s.masked := by
  have hmasked := s.masked_eq
  rw [List.getElem?_map, getElem?_maskLines, s.raw_eq] at hmasked
  exact Option.some.inj hmasked

theorem sound (s : Site source) : s.tag.Sound := by
  obtain ⟨_, _, _, ht⟩ := exists_of_mem_openTags s.found
  exact ht

/-- Masking leaves the tag as it is. -/
def Unmasked (s : Site source) : Prop :=
  s.tag.render <+: s.raw.drop s.column

instance (s : Site source) : Decidable s.Unmasked :=
  inferInstanceAs (Decidable (s.tag.render <+: s.raw.drop s.column))

/-- The line of an unmasked tag, as it is written and as it is masked. Another tag in its place, in
which no comment opens, is shown too. -/
theorem Unmasked.exists_split {s : Site source} (h : s.Unmasked) :
    ∃ front rest shown, s.raw = front ++ (s.tag.render ++ rest) ∧ front.length = s.column ∧
      s.masked = shown ++ (s.tag.render ++ s.after) ∧ shown.length = s.column ∧
      s.tag.Unmarked ∧ maskLine s.inside front = (shown, false) ∧
      ∀ u : OpenTag, u.Unmarked → maskLine s.inside (front ++ (u.render ++ rest)) =
        (shown ++ (u.render ++ s.after), (maskLine s.inside s.raw).2) := by
  obtain ⟨shown, hshown, hcolumn, _⟩ := exists_of_mem_openTags s.found
  obtain ⟨rest, hrest⟩ := h
  rw [Nat.zero_add] at hcolumn
  have hwidth := congrArg List.length s.maskLine_raw
  rw [length_maskLine, hshown, List.length_append] at hwidth
  have hlength : (s.raw.take s.column).length = shown.length := by
    rw [List.length_take, hwidth, hcolumn]
    omega
  have hraw : s.raw = s.raw.take s.column ++ (s.tag.render ++ rest) := by
    rw [hrest, List.take_append_drop]
  have hmask : maskLine s.inside (s.raw.take s.column ++ (s.tag.render ++ rest)) =
      (shown ++ (s.tag.render ++ s.after), (maskLine s.inside s.raw).2) := by
    rw [← hraw, ← hshown, ← s.maskLine_raw]
  obtain ⟨hunmarked, hfront, _⟩ := OpenTag.unmarked_of_maskLine hlength hmask
  exact ⟨_, rest, shown, hraw, hlength.trans hcolumn.symm, hshown, hcolumn.symm, hunmarked, hfront,
    fun u hu => OpenTag.maskLine_replace hu hlength hmask⟩

/-- The site of a tag in place of this one, on a line that leaves comments open as before. -/
theorem exists_relocated (s : Site source) {line masked : Text} {u : OpenTag}
    (hmask : maskLine s.inside line = (masked, (maskLine s.inside s.raw).2))
    (hfound : (s.column, u, s.after) ∈ openTags (masked.length + 1) 0 masked)
    (hopen : u.selfClosing = false) {code : Text}
    (hcode : section? code "template" =
      some { s.template with lines := s.template.lines.set s.index line }) :
    ∃ s' : Site code, s'.template.startLine = s.template.startLine ∧ s'.index = s.index ∧
      s'.column = s.column ∧ s'.tag = u := by
  have hindex := (List.getElem?_eq_some_iff.mp s.raw_eq).1
  have hlines : (maskLines false (s.template.lines.set s.index line))[s.index]? =
      some (maskLine s.inside line) := by
    rw [getElem?_maskLines, List.getElem?_set_self hindex, List.take_set_of_le (Nat.le_refl _)]
    rfl
  exact ⟨{ template := _, index := s.index, raw := line, masked, column := s.column, tag := u
           after := s.after, template_eq := hcode, raw_eq := List.getElem?_set_self hindex
           masked_eq := by rw [List.getElem?_map, hlines, hmask]; rfl
           found := hfound, unclosed := hopen }, rfl, rfl, rfl, rfl⟩

end Site

end MarkupIds.Sfc
