import MarkupIds.Proofs.Lists
import MarkupIds.Proofs.Naming.NormalForm
import MarkupIds.Proofs.Selector.Compound

/-!
# Selectors that are written and read

A selector is written as a tag or star with simple parts, and alternatives with a comma between
them. Reading gives back what was written, unless a value holds a comma: commas divide a selector
before quotes are looked at.
-/

namespace MarkupIds.Selector

/-! ## Writing -/

/-- A letter, a digit, an underscore or a hyphen of ASCII. -/
def isPlainChar (c : Char) : Bool :=
  Text.isAsciiLetter c || Text.isAsciiDigit c || c == '_' || c == '-'

/-- The name of a tag in lower case. -/
def IsLowerTag (t : Text) : Prop :=
  ∃ c cs, t = c :: cs ∧ Text.isAsciiLower c = true ∧ ∀ d ∈ cs, Naming.isIdChar d = true

namespace Part

/-- Names are words over plain characters, in tests also with colons, and a value has no double
quote in it. -/
def Plain : Part → Prop
  | .cls name | .id name => name ≠ [] ∧ ∀ c ∈ name, isPlainChar c = true
  | .attr name value =>
    (name ≠ [] ∧ ∀ c ∈ name, isPlainChar c = true ∨ c = ':') ∧ ∀ v ∈ value, '"' ∉ v

-- Each quantifier is a run over its own list: found by instance search, it may run over all
-- characters.
instance : (p : Part) → Decidable p.Plain
  | .cls name | .id name =>
    decidable_of_iff (name ≠ [] ∧ name.all isPlainChar = true) (by simp [Plain])
  | .attr name value =>
    decidable_of_iff
      ((name ≠ [] ∧ name.all (fun c => isPlainChar c || c == ':') = true) ∧
        value.all (fun v => !v.contains '"') = true)
      (by cases value <;> simp [Plain])

/-- A part as it is written, a value in double quotes. -/
def render : Part → Text
  | .cls name => '.' :: name
  | .id name => '#' :: name
  | .attr name none => '[' :: (name ++ [']'])
  | .attr name (some value) => '[' :: (name ++ '=' :: '"' :: (value ++ ['"', ']']))

def cls? : Part → Option Text
  | .cls name => some name
  | _ => none

def id? : Part → Option Text
  | .id name => some name
  | _ => none

def test? : Part → Option (Text × Option Text)
  | .attr name value => some (name, value)
  | _ => none

end Part

/-- One alternative of a selector: a tag, or a star for none, and parts with at most one id. -/
structure Alternative where
  tag : Option Text
  parts : List Part
  lower : ∀ t ∈ tag, IsLowerTag t
  plain : ∀ p ∈ parts, p.Plain
  oneId : (parts.filterMap Part.id?).length ≤ 1

namespace Alternative

def render (a : Alternative) : Text :=
  a.tag.getD ['*'] ++ (a.parts.map Part.render).flatten

/-- What an alternative asks for. -/
def selector (a : Alternative) : Selector where
  tag := a.tag
  classes := a.parts.filterMap Part.cls?
  id := (a.parts.filterMap Part.id?).head?
  attributes := a.parts.filterMap Part.test?

end Alternative

def render (alternatives : List Alternative) : Text :=
  Text.join ", ".toList (alternatives.map (·.render))

/-! ## Reading a part -/

theorem isNameChar_of_isPlainChar {c : Char} (h : isPlainChar c = true) : isNameChar c = true := by
  simp only [isPlainChar, Bool.or_eq_true, beq_iff_eq] at h
  rw [isNameChar, Bool.or_eq_true, beq_iff_eq]
  refine h.imp_left fun hword => ?_
  have hascii : c.toNat < 128 := by
    rw [Text.isAsciiLetter_iff, Text.isAsciiDigit_iff] at hword
    rcases hword with (hletter | hdigit) | rfl
    · omega
    · omega
    · decide
  simpa [Text.isWordChar, if_pos hascii, or_assoc] using hword

theorem isAttributeChar_of_plain {c : Char} (h : isPlainChar c = true ∨ c = ':') :
    isAttributeChar c = true := by
  rcases h with hplain | rfl
  · have hblank := isBlank_of_isNameChar (isNameChar_of_isPlainChar hplain)
    have hbracket : c ≠ ']' := by
      rintro rfl
      exact absurd hplain (by decide)
    have hequals : c ≠ '=' := by
      rintro rfl
      exact absurd hplain (by decide)
    simp [isAttributeChar, hblank, hbracket, hequals]
  · decide

theorem attributePart?_name {name rest : Text} (hne : name ≠ [])
    (hname : ∀ c ∈ name, isAttributeChar c = true)
    (hrest : ∀ c ∈ rest.head?, isAttributeChar c = false ∧ Text.isBlank c = false) :
    attributePart? (name ++ rest) = attributeEnd? name rest := by
  have hstart : (name ++ rest).dropWhile Text.isBlank = name ++ rest := by
    obtain ⟨c, cs, rfl⟩ := List.exists_cons_of_ne_nil hne
    have hblank : Text.isBlank c = false := by
      have hc := hname c (by simp)
      simp only [isAttributeChar, Bool.and_eq_true, Bool.not_eq_true'] at hc
      exact hc.2
    rw [List.cons_append, List.dropWhile_cons_of_neg (by simp [hblank])]
  have hend : rest.dropWhile Text.isBlank = rest := by
    cases rest with
    | nil => rfl
    | cons c rest => rw [List.dropWhile_cons_of_neg (by simp [(hrest c rfl).2])]
  have hstop : ∀ c ∈ rest.head?, isAttributeChar c = false := fun c hc => (hrest c hc).1
  rw [attributePart?_eq, testEnd, hstart, Text.takeWhile_append_stop hname hstop,
    Text.dropWhile_append_stop hname hstop, hend, if_neg (by simpa using hne)]

theorem namedPart?_name (make : Text → Part) {name : Text}
    (h : name ≠ [] ∧ ∀ c ∈ name, isPlainChar c = true) :
    namedPart? make name = some (make name, []) := by
  have hname : ∀ c ∈ name, isNameChar c = true := fun c hc => isNameChar_of_isPlainChar (h.2 c hc)
  rw [namedPart?, List.takeWhile_eq_self_iff.mpr hname, List.dropWhile_eq_nil_iff.mpr hname,
    if_neg (by simpa using h.1)]

theorem part?_render {p : Part} (h : p.Plain) : part? p.render = some (p, []) := by
  cases p with
  | cls name => exact namedPart?_name .cls h
  | id name => exact namedPart?_name .id h
  | attr name value =>
      obtain ⟨⟨hne, hname⟩, hvalue⟩ := h
      have hchars : ∀ c ∈ name, isAttributeChar c = true :=
        fun c hc => isAttributeChar_of_plain (hname c hc)
      cases value with
      | none => exact attributePart?_name hne hchars (by simp; decide)
      | some value =>
          have hquoted : value? ('"' :: (value ++ ['"', ']'])) = some (value, []) := by
            rw [value?, quotedValue?_closed (hvalue value rfl)]
            rfl
          rw [Part.render, part?, attributePart?_name hne hchars (by simp; decide), attributeEnd?,
            List.dropWhile_cons_of_neg (by decide), hquoted]
          rfl

theorem openQuote?_of_not_mem {t : Text} (h : '=' ∉ t) : openQuote? t = none := by
  rw [openQuote?, List.dropWhile_eq_nil_iff.mpr (Text.bne_of_not_mem h)]
  rfl

/-- No part leaves a quote open. -/
theorem openQuote?_render {p : Part} (h : p.Plain) : openQuote? p.render = none := by
  have hname : ∀ {name : Text}, (∀ c ∈ name, isPlainChar c = true ∨ c = ':') → '=' ∉ name := by
    intro name hall hequals
    exact absurd (hall _ hequals) (by decide)
  cases p with
  | cls name =>
      have hequals := hname fun c hc => .inl (h.2 c hc)
      exact openQuote?_of_not_mem (by simpa [Part.render] using hequals)
  | id name =>
      have hequals := hname fun c hc => .inl (h.2 c hc)
      exact openQuote?_of_not_mem (by simpa [Part.render] using hequals)
  | attr name value =>
      have hequals := hname h.1.2
      cases value with
      | none => exact openQuote?_of_not_mem (by simpa [Part.render] using hequals)
      | some value =>
          have hfront : '=' ∉ '[' :: name := by simpa using hequals
          have hstop : ∀ c ∈ ('=' :: '"' :: (value ++ ['"', ']'])).head?, (c != '=') = false := by
            simp
          rw [Part.render, ← List.cons_append, openQuote?,
            Text.dropWhile_append_stop (Text.bne_of_not_mem hfront) hstop, List.tail_cons,
            List.dropWhile_cons_of_neg (by decide)]
          simp

theorem separate_render {parts : List Part} (h : ∀ p ∈ parts, p.Plain) :
    separate (parts.map Part.render) = true := by
  induction parts with
  | nil => rfl
  | cons p parts ih =>
      rw [List.forall_mem_cons] at h
      simp [separate, runsOn, openQuote?_render h.1, ih h.2]

/-! ## Reading an alternative -/

theorem foldl_addPart (parts : List Part) (s : Selector) :
    parts.foldl addPart s =
      { tag := s.tag
        classes := s.classes ++ parts.filterMap Part.cls?
        id := (parts.filterMap Part.id?).getLast?.or s.id
        attributes := s.attributes ++ parts.filterMap Part.test? } := by
  induction parts generalizing s with
  | nil => simp
  | cons p parts ih =>
      rw [List.foldl_cons, ih]
      cases p with
      | cls name => simp [addPart, List.filterMap_cons, Part.cls?, Part.id?, Part.test?]
      | id name =>
          simp [addPart, List.filterMap_cons, Part.cls?, Part.id?, Part.test?, List.getLast?_cons]
      | attr name value => simp [addPart, List.filterMap_cons, Part.cls?, Part.id?, Part.test?]

theorem isNameChar_of_isIdChar {c : Char} (h : Naming.isIdChar c = true) : isNameChar c = true := by
  apply isNameChar_of_isPlainChar
  simp only [Naming.isIdChar, Bool.or_eq_true, beq_iff_eq, Text.isAsciiLower_iff] at h
  simp only [isPlainChar, Bool.or_eq_true, beq_iff_eq, Text.isAsciiLetter_iff]
  tauto

theorem IsLowerTag.isTag {t : Text} (h : IsLowerTag t) : IsTag t := by
  obtain ⟨c, cs, rfl, hlower, hall⟩ := h
  exact .inr ⟨c, cs, rfl, Text.isAsciiLetter_iff.mpr (.inl (Text.isAsciiLower_iff.mp hlower)),
    fun d hd => isNameChar_of_isIdChar (hall d hd)⟩

theorem IsLowerTag.lower_eq {t : Text} (h : IsLowerTag t) : Text.lower t = t := by
  obtain ⟨c, cs, rfl, hlower, hall⟩ := h
  refine Text.lower_eq_self ?_
  rw [List.forall_mem_cons]
  refine ⟨Naming.isLowered_of_isIdChar ?_, fun d hd => Naming.isLowered_of_isIdChar (hall d hd)⟩
  simp [Naming.isIdChar, hlower]

theorem IsLowerTag.tagPart_fst {t : Text} (h : IsLowerTag t) : (tagPart t).1 = some t := by
  have hlower := h.lower_eq
  obtain ⟨c, cs, rfl, hfirst, hall⟩ := h
  have hletter := Text.isAsciiLetter_iff.mpr (.inl (Text.isAsciiLower_iff.mp hfirst))
  have hstar : c ≠ '*' := by
    rintro rfl
    exact absurd hfirst (by decide)
  have hname : ∀ d ∈ cs, isNameChar d = true := fun d hd => isNameChar_of_isIdChar (hall d hd)
  simp [tagPart, hletter, List.takeWhile_eq_self_iff.mpr hname, hlower]

namespace Alternative

theorem isPart (a : Alternative) : ∀ t ∈ a.parts.map Part.render, IsPart t := by
  intro t ht
  obtain ⟨p, hp, rfl⟩ := List.mem_map.mp ht
  exact ⟨p, part?_render (a.plain p hp)⟩

theorem isTag (a : Alternative) : IsTag (a.tag.getD ['*']) := by
  cases htag : a.tag with
  | none => exact .inl rfl
  | some t => exact (a.lower t htag).isTag

theorem solid (a : Alternative) : Solid a.render := by
  have hpieces : ∀ t ∈ a.tag.getD ['*'] :: a.parts.map Part.render, Solid t := by
    rw [List.forall_mem_cons]
    exact ⟨a.isTag.solid, fun t ht => (a.isPart t ht).solid⟩
  exact Solid.flatten hpieces (List.cons_ne_nil _ _)

theorem filterMap_partOf? (a : Alternative) :
    (a.parts.map Part.render).filterMap partOf? = a.parts := by
  rw [List.filterMap_map]
  conv_rhs => rw [← List.filterMap_some (l := a.parts)]
  exact List.filterMap_congr fun p hp => partOf?_eq_some (part?_render (a.plain p hp))

theorem readCompound_render (a : Alternative) : readCompound a.render = .ok a.selector := by
  have htag : (tagPart (a.tag.getD ['*'])).1 = a.tag := by
    cases htag : a.tag with
    | none => rfl
    | some t => exact (a.lower t htag).tagPart_fst
  have hid : (a.parts.filterMap Part.id?).getLast? = (a.parts.filterMap Part.id?).head? := by
    have hone := a.oneId
    match a.parts.filterMap Part.id?, hone with
    | [], _ => rfl
    | [_], _ => rfl
  rw [readCompound, render, a.isTag.tagPart_append (isNameChar_head?_flatten a.isPart), htag]
  refine (readParts_flatten _ a.isPart (separate_render a.plain) le_rfl _).trans ?_
  rw [a.filterMap_partOf?, foldl_addPart, hid]
  simp [selector]

end Alternative

/-! ## Commas -/

theorem Part.comma_mem_render {p : Part} (h : p.Plain) :
    ',' ∈ p.render ↔ ∃ name value, p = .attr name (some value) ∧ ',' ∈ value := by
  have hname : ∀ {name : Text}, (∀ c ∈ name, isPlainChar c = true ∨ c = ':') → ',' ∉ name := by
    intro name hall hcomma
    exact absurd (hall _ hcomma) (by decide)
  cases p with
  | cls name => simpa [render] using hname fun c hc => .inl (h.2 c hc)
  | id name => simpa [render] using hname fun c hc => .inl (h.2 c hc)
  | attr name value =>
      cases value with
      | none => simpa [render] using hname h.1.2
      | some value => simp [render, hname h.1.2]

/-- Commas stand in values only. -/
theorem Alternative.comma_mem_render (a : Alternative) :
    ',' ∈ a.render ↔ ∃ name value, Part.attr name (some value) ∈ a.parts ∧ ',' ∈ value := by
  rw [render, List.mem_append, or_iff_right a.isTag.comma_not_mem, List.mem_flatten]
  constructor
  · rintro ⟨_, ht, hcomma⟩
    obtain ⟨p, hp, rfl⟩ := List.mem_map.mp ht
    obtain ⟨name, value, rfl, hvalue⟩ := (Part.comma_mem_render (a.plain p hp)).mp hcomma
    exact ⟨name, value, hp, hvalue⟩
  · rintro ⟨name, value, hp, hvalue⟩
    exact ⟨_, List.mem_map_of_mem hp,
      (Part.comma_mem_render (a.plain _ hp)).mpr ⟨name, value, rfl, hvalue⟩⟩

theorem count_render {alternatives : List Alternative} (hne : alternatives ≠ []) :
    (render alternatives).count ',' + 1 =
      alternatives.length + (alternatives.map (·.render.count ',')).sum := by
  obtain ⟨a, more, rfl⟩ := List.exists_cons_of_ne_nil hne
  have hmore : (more.flatMap fun b => ", ".toList ++ b.render).count ',' =
      more.length + (more.map (·.render.count ',')).sum := by
    clear hne
    induction more with
    | nil => rfl
    | cons b more ih =>
        rw [List.flatMap_cons, List.count_append, List.count_append, ih, List.length_cons,
          List.map_cons, List.sum_cons, show ", ".toList.count ',' = 1 from rfl]
        omega
  rw [render, List.map_cons, Text.join_cons, List.flatMap_map, List.count_append, hmore,
    List.length_cons, List.map_cons, List.sum_cons]
  omega

/-! ## Reading alternatives -/

theorem render_cons (a : Alternative) (alternatives : List Alternative) :
    render (a :: alternatives) =
      Text.join [','] (a.render :: alternatives.map fun a => ' ' :: a.render) := by
  rw [render, List.map_cons, Text.join_cons, Text.join_cons, List.flatMap_map, List.flatMap_map]
  rfl

theorem trim_space {t : Text} (h : Solid t) : Text.trim (' ' :: t) = t :=
  h.trim_eq

theorem read_render {alternatives : List Alternative} (hne : alternatives ≠ [])
    (h : ∀ a ∈ alternatives, ',' ∉ a.render) :
    read (render alternatives) = .ok (alternatives.map (·.selector)) := by
  obtain ⟨a, more, rfl⟩ := List.exists_cons_of_ne_nil hne
  rw [List.forall_mem_cons] at h
  have hcommas : ∀ piece ∈ a.render :: more.map fun a => ' ' :: a.render, ',' ∉ piece := by
    rw [List.forall_mem_cons, List.forall_mem_map]
    exact ⟨h.1, fun b hb => by simpa using h.2 b hb⟩
  have hpieces : (Text.split ',' (render (a :: more))).map Text.trim =
      (a :: more).map (·.render) := by
    rw [render_cons, Text.split_join hcommas (List.cons_ne_nil _ _), List.map_cons, List.map_map,
      List.map_cons, a.solid.trim_eq]
    exact congrArg _ (List.map_congr_left fun b _ => trim_space b.solid)
  have hfilled : ((a :: more).map (·.render)).any (·.isEmpty) = false := by
    rw [List.any_eq_false]
    rw [List.forall_mem_map]
    intro b _
    obtain ⟨c, rest, hfirst, -⟩ := b.solid.first
    simp [hfirst]
  rw [read, hpieces]
  simp only [hfilled, Bool.false_eq_true, if_false]
  rw [mapM_eq_ok_iff, List.forall₂_map_left_iff, List.forall₂_map_right_iff, List.forall₂_same]
  exact fun b _ => b.readCompound_render

theorem length_of_read {t : Text} {selectors : List Selector} (h : read t = .ok selectors) :
    selectors.length = t.count ',' + 1 := by
  unfold read at h
  dsimp only at h
  split at h
  · exact nomatch h
  · rw [← (mapM_eq_ok_iff.mp h).length_eq, List.length_map, Text.length_split]

/-- Reading gives back the alternatives that were written exactly if no value holds a comma. -/
theorem read_render_iff {alternatives : List Alternative} (hne : alternatives ≠ []) :
    read (render alternatives) = .ok (alternatives.map (·.selector)) ↔
      ∀ a ∈ alternatives, ∀ name value, Part.attr name (some value) ∈ a.parts → ',' ∉ value := by
  have hcommas : (∀ a ∈ alternatives, ',' ∉ a.render) ↔
      ∀ a ∈ alternatives, ∀ name value, Part.attr name (some value) ∈ a.parts → ',' ∉ value := by
    simp only [Alternative.comma_mem_render, not_exists, not_and]
  rw [← hcommas]
  constructor
  · intro hread a ha
    -- Each comma in a value makes one alternative more.
    have hlength := length_of_read hread
    rw [count_render hne, List.length_map] at hlength
    have hnone : (alternatives.map (·.render.count ',')).sum = 0 := by omega
    rw [List.sum_eq_zero_iff_forall_eq_nat] at hnone
    exact List.count_eq_zero.mp (hnone _ (List.mem_map_of_mem ha))
  · exact read_render hne

/-- A link with a class, an id and two tests, one of them with brackets, a quote and a blank in its
value. -/
def homeLink : Alternative where
  tag := some "a".toList
  parts := [.cls "cta".toList, .attr "v-on:click".toList (some "go(['x ]".toList),
    .id "home".toList, .attr "href".toList none]
  lower := by
    rintro _ ⟨⟩
    exact ⟨'a', [], rfl, by decide, by simp⟩
  plain := by decide +kernel
  oneId := by decide

/-- Anything with a title that holds a comma. -/
def titled : Alternative where
  tag := none
  parts := [.attr "title".toList (some "1,2".toList)]
  lower := by simp
  plain := by decide +kernel
  oneId := by decide

theorem read_render_iff_link :
    render [homeLink, homeLink] = ("a.cta[v-on:click=\"go(['x ]\"]#home[href], " ++
      "a.cta[v-on:click=\"go(['x ]\"]#home[href]").toList ∧
    read (render [homeLink, homeLink]) = .ok [homeLink.selector, homeLink.selector] := by
  refine ⟨by decide +kernel, (read_render_iff (by decide)).mpr ?_⟩
  simp [homeLink]

/-- A comma ends the selector inside of the quotes. -/
theorem read_render_comma :
    render [titled] = "*[title=\"1,2\"]".toList ∧
    read (render [titled]) =
      .error (.malformed "[title=\"1".toList "*[title=\"1".toList) := by
  decide +kernel

end MarkupIds.Selector
