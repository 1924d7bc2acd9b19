import MarkupIds.Proofs.Selector.Part
import MarkupIds.Proofs.Text.Character

/-!
# What compound selectors mean

A compound selector is written as a tag or star and simple parts. It accepts an element if every
part does alone, but of several ids only the last one counts.
-/

namespace MarkupIds.Selector

/-! ## Compounds -/

/-- The name of a tag, or a star. -/
def IsTag (t : Text) : Prop :=
  t = ['*'] ∨ ∃ c cs, t = c :: cs ∧ Text.isAsciiLetter c = true ∧ ∀ d ∈ cs, isNameChar d = true

/-- A compound selector as it is put together. -/
structure Compound where
  tag : Option Text
  parts : List Text
  isTag : ∀ t ∈ tag, IsTag t
  isPart : ∀ t ∈ parts, IsPart t
  comma_not_mem : ∀ t ∈ parts, ',' ∉ t
  pieces_ne_nil : tag.toList ++ parts ≠ []

namespace Compound

def pieces (c : Compound) : List Text :=
  c.tag.toList ++ c.parts

def text (c : Compound) : Text :=
  c.pieces.flatten

end Compound

/-- No part runs on into those that follow it. -/
def separate : List Text → Bool
  | [] => true
  | t :: ts => !runsOn t ts.flatten && separate ts

def isId (t : Text) : Bool :=
  t.head? == some '#'

/-- The parts that count: an id counts if none follows it. -/
def binding : List Text → List Text
  | [] => []
  | t :: ts => if isId t && ts.any isId then binding ts else t :: binding ts

/-! ## Reading a compound -/

/-- The part that is written, if it is one. -/
def partOf? (t : Text) : Option Part :=
  (part? t).map (·.1)

theorem partOf?_eq_some {t : Text} {p : Part} (h : part? t = some (p, [])) : partOf? t = some p := by
  rw [partOf?, h, Option.map_some]

theorem IsPart.exists_mark {t : Text} (h : IsPart t) :
    ∃ mark rest, t = mark :: rest ∧ (mark = '.' ∨ mark = '#' ∨ mark = '[') := by
  obtain ⟨p, hp⟩ := h
  rcases part?_cases hp with ⟨name, rfl, -⟩ | ⟨name, rfl, -⟩ |
    ⟨front, _, _, rfl, -⟩
  · exact ⟨_, _, rfl, .inl rfl⟩
  · exact ⟨_, _, rfl, .inr (.inl rfl)⟩
  · exact ⟨_, _, rfl, .inr (.inr rfl)⟩

/-- No name goes on into parts. -/
theorem isNameChar_head?_flatten {parts : List Text} (h : ∀ t ∈ parts, IsPart t) :
    ∀ c ∈ parts.flatten.head?, isNameChar c = false := by
  cases parts with
  | nil => simp
  | cons t parts =>
      obtain ⟨mark, rest, rfl, hmark⟩ := (h t (by simp)).exists_mark
      simp only [List.flatten_cons, List.cons_append, List.head?_cons, Option.mem_some_iff]
      rintro c rfl
      rcases hmark with rfl | rfl | rfl <;> decide

theorem readParts_flatten (compound : Text) {parts : List Text} (h : ∀ t ∈ parts, IsPart t)
    (hquotes : separate parts = true) {fuel : ℕ} (hfuel : parts.flatten.length ≤ fuel)
    (s : Selector) :
    readParts compound fuel s parts.flatten = .ok ((parts.filterMap partOf?).foldl addPart s) := by
  induction parts generalizing fuel s with
  | nil => cases fuel <;> rfl
  | cons t parts ih =>
      rw [List.forall_mem_cons] at h
      simp only [separate, Bool.and_eq_true, Bool.not_eq_true'] at hquotes
      obtain ⟨p, hp⟩ := h.1
      obtain ⟨mark, tail, ht, -⟩ := h.1.exists_mark
      have hread := part?_append hp (isNameChar_head?_flatten h.2) hquotes.1
      rw [List.flatten_cons, List.length_append, ht, List.length_cons] at hfuel
      obtain ⟨fuel, rfl⟩ : ∃ n, fuel = n + 1 := ⟨fuel - 1, by omega⟩
      have hstep : readParts compound (fuel + 1) s (t ++ parts.flatten) =
          readParts compound fuel (s.addPart p) parts.flatten := by
        rw [readParts, hread]
        rw [ht]
        exact List.cons_ne_nil _ _
      rw [List.flatten_cons, hstep, ih h.2 hquotes.2 (by omega),
        List.filterMap_cons_some (partOf?_eq_some hp), List.foldl_cons]

theorem IsTag.tagPart_append {t rest : Text} (h : IsTag t)
    (hrest : ∀ c ∈ rest.head?, isNameChar c = false) :
    tagPart (t ++ rest) = ((tagPart t).1, rest) := by
  rcases h with rfl | ⟨c, cs, rfl, hletter, hall⟩
  · rfl
  · have hread : ∀ {rest : Text}, (∀ d ∈ rest.head?, isNameChar d = false) →
        tagPart (c :: (cs ++ rest)) = (some (Text.lower (c :: cs)), rest) := by
      intro rest hrest
      unfold tagPart
      split
      · rename_i hstar
        exact absurd hletter (by rw [(List.cons.inj hstar).1]; decide)
      · rename_i hcons
        obtain ⟨rfl, rfl⟩ := List.cons.inj hcons
        rw [if_pos hletter, Text.takeWhile_append_stop hall hrest,
          Text.dropWhile_append_stop hall hrest]
      · rename_i hnil
        exact nomatch hnil
    have halone : tagPart (c :: (cs ++ [])) = (some (Text.lower (c :: cs)), []) :=
      hread (by simp)
    rw [List.append_nil] at halone
    rw [List.cons_append, hread hrest, halone]

theorem IsPart.tagPart_append {t : Text} (h : IsPart t) (rest : Text) :
    tagPart (t ++ rest) = (none, t ++ rest) := by
  obtain ⟨mark, tail, rfl, hmark⟩ := h.exists_mark
  rcases hmark with rfl | rfl | rfl <;> rfl

/-! ## Reading a compound alone -/

/-- A text with no blanks around it. -/
structure Solid (t : Text) : Prop where
  first : ∃ c rest, t = c :: rest ∧ Text.isBlank c = false
  last : ∃ front c, t = front ++ [c] ∧ Text.isBlank c = false

theorem Solid.trim_eq {t : Text} (h : Solid t) : Text.trim t = t := by
  obtain ⟨c, rest, hfirst, hc⟩ := h.first
  obtain ⟨front, d, hlast, hd⟩ := h.last
  have hdrop : t.dropWhile Text.isBlank = t := by
    rw [hfirst, List.dropWhile_cons_of_neg (by simp [hc])]
  rw [Text.trim, Text.trimWhile, hdrop]
  refine Text.dropTailWhile_eq_self ?_
  rw [hlast, List.getLast?_concat]
  rintro _ ⟨⟩
  exact hd

theorem Solid.flatten {ts : List Text} (h : ∀ t ∈ ts, Solid t) (hne : ts ≠ []) :
    Solid ts.flatten := by
  constructor
  · obtain ⟨t, back, rfl⟩ := List.exists_cons_of_ne_nil hne
    obtain ⟨c, rest, rfl, hc⟩ := (h t (by simp)).first
    exact ⟨c, _, rfl, hc⟩
  · obtain ⟨ts, t, rfl⟩ := (List.eq_nil_or_concat ts).resolve_left hne
    obtain ⟨front, c, rfl, hc⟩ := (h t (by simp)).last
    exact ⟨ts.flatten ++ front, c, by simp, hc⟩

theorem isBlank_of_isNameChar {c : Char} (h : isNameChar c = true) : Text.isBlank c = false := by
  simp only [isNameChar, Bool.or_eq_true, beq_iff_eq] at h
  rcases h with hword | rfl
  · exact Text.isBlank_of_isWordChar hword
  · decide

theorem Solid.of_name {mark : Char} {name : Text} (hmark : Text.isBlank mark = false)
    (hname : ∀ c ∈ name, isNameChar c = true) : Solid (mark :: name) := by
  refine ⟨⟨mark, name, rfl, hmark⟩, ?_⟩
  rcases List.eq_nil_or_concat name with rfl | ⟨front, c, rfl⟩
  · exact ⟨[], mark, rfl, hmark⟩
  · exact ⟨mark :: front, c, by simp, isBlank_of_isNameChar (hname c (by simp))⟩

theorem IsTag.solid {t : Text} (h : IsTag t) : Solid t := by
  rcases h with rfl | ⟨c, cs, rfl, hletter, hall⟩
  · exact .of_name (by decide) (by simp)
  · exact .of_name (Text.isBlank_of_isAsciiLetter hletter) hall

theorem IsPart.solid {t : Text} (h : IsPart t) : Solid t := by
  obtain ⟨p, hp⟩ := h
  rcases part?_cases hp with ⟨name, rfl, -, -, hall⟩ | ⟨name, rfl, -, -, hall⟩ |
    ⟨front, _, _, rfl, -⟩
  · exact .of_name (by decide) hall
  · exact .of_name (by decide) hall
  · exact ⟨⟨'[', _, rfl, by decide⟩, '[' :: front, ']', rfl, by decide⟩

theorem IsTag.comma_not_mem {t : Text} (h : IsTag t) : ',' ∉ t := by
  rcases h with rfl | ⟨c, cs, rfl, hletter, hall⟩
  · decide
  · intro hcomma
    rcases List.mem_cons.mp hcomma with rfl | hcomma
    · exact absurd hletter (by decide)
    · exact absurd (hall ',' hcomma) (by decide)

/-- A selector without commas is one alternative. -/
theorem holds_of_readCompound {t : Text} {s : Selector} (hcomma : ',' ∉ t) (hsolid : Solid t)
    (hread : readCompound t = .ok s) (e : Element) : holds t e = .ok (s.accepts e) := by
  obtain ⟨c, rest, hfirst, -⟩ := hsolid.first
  have hpieces : ∀ piece ∈ [t], ',' ∉ piece := by simpa using hcomma
  have hsplit : Text.split ',' t = [t] := by
    simpa [Text.join] using Text.split_join hpieces (by simp)
  have hfilled : t.isEmpty = false := by rw [hfirst, List.isEmpty_cons]
  have halternatives : read t = .ok [s] := by
    simp only [read, hsplit, List.map_singleton, hsolid.trim_eq, List.any_cons, List.any_nil,
      hfilled, Bool.or_false, List.mapM_cons, List.mapM_nil, hread]
    rfl
  simp [holds, halternatives, pure, Except.pure, bind, Except.bind]

namespace Compound

variable {c : Compound}

/-- The selector with all parts of a compound. -/
def selector (c : Compound) : Selector :=
  (c.parts.filterMap partOf?).foldl addPart { tag := c.tag.bind fun t => (tagPart t).1 }

theorem readCompound_text (h : separate c.parts = true) : readCompound c.text = .ok c.selector := by
  obtain ⟨tag, parts, htag, hparts, hcomma, hne⟩ := c
  have htagPart : tagPart (tag.toList ++ parts).flatten =
      (tag.bind fun t => (tagPart t).1, parts.flatten) := by
    cases tag with
    | none =>
        cases parts with
        | nil => rfl
        | cons t parts => exact (hparts t (by simp)).tagPart_append _
    | some t => exact (htag t rfl).tagPart_append (isNameChar_head?_flatten hparts)
  rw [readCompound, text, pieces, htagPart]
  exact readParts_flatten _ hparts h (Nat.le_refl _) _

theorem solid_pieces (c : Compound) : ∀ t ∈ c.pieces, Solid t := by
  intro t ht
  rcases List.mem_append.mp ht with htag | hpart
  · exact (c.isTag t (Option.mem_toList.mp htag)).solid
  · exact (c.isPart t hpart).solid

theorem comma_not_mem_text (c : Compound) : ',' ∉ c.text := by
  intro hcomma
  obtain ⟨t, ht, hmem⟩ := List.mem_flatten.mp hcomma
  rcases List.mem_append.mp ht with htag | hpart
  · exact (c.isTag t (Option.mem_toList.mp htag)).comma_not_mem hmem
  · exact c.comma_not_mem t hpart hmem

theorem holds_text (h : separate c.parts = true) (e : Element) :
    holds c.text e = .ok (c.selector.accepts e) :=
  holds_of_readCompound c.comma_not_mem_text (.flatten c.solid_pieces c.pieces_ne_nil)
    (readCompound_text h) e

end Compound

/-! ## What the parts of a compound mean -/

/-- What a part alone asks of an element. -/
def Part.accepts (p : Part) (e : Element) : Bool :=
  match p with
  | .cls name => e.classes.contains name
  | .id name => e.attribute? "id".toList == some name
  | .attr name value => attributeMatches e (name, value)

theorem holds_tag {t : Text} (ht : IsTag t) (e : Element) :
    holds t e = .ok (tagMatches { tag := (tagPart t).1 } e) := by
  have halone := Compound.holds_text
    (c := ⟨some t, [], by simpa using ht, by simp, by simp, by simp⟩) rfl e
  simpa [Compound.text, Compound.pieces, Compound.selector, accepts, idMatches, classesMatch]
    using halone

theorem holds_part {t : Text} {p : Part} (hp : part? t = some (p, [])) (hcomma : ',' ∉ t)
    (e : Element) : holds t e = .ok (p.accepts e) := by
  have hquotes : separate [t] = true := by
    simp [separate, runsOn, closeBracket?]
  have halone := Compound.holds_text
    (c := ⟨none, [t], by simp, by simpa using ⟨p, hp⟩, by simpa using hcomma, by simp⟩) hquotes e
  have hone : (({} : Selector).addPart p).accepts e = p.accepts e := by
    cases p <;> simp [addPart, accepts, tagMatches, idMatches, classesMatch, Part.accepts]
  simpa [Compound.text, Compound.pieces, Compound.selector, partOf?_eq_some hp, hone] using halone

theorem isId_iff {t : Text} {p : Part} (hp : part? t = some (p, [])) :
    isId t = true ↔ ∃ name, p = .id name := by
  rcases part?_cases hp with ⟨name, rfl, rfl, -⟩ | ⟨name, rfl, rfl, -⟩ | ⟨front, _, _, rfl, rfl, -⟩
  · simp [isId]
  · simp [isId]
  · simp [isId]

theorem eq_of_part?_id {t name : Text} (hp : part? t = some (.id name, [])) : t = '#' :: name := by
  rcases part?_cases hp with ⟨_, _, hcls, _⟩ | ⟨_, rfl, hid, _⟩ | ⟨_, _, _, _, hattr, _⟩
  · exact nomatch hcls
  · rw [Part.id.inj hid]
  · exact nomatch hattr

theorem binding_sublist (parts : List Text) : (binding parts).Sublist parts := by
  fun_induction binding parts with
  | case1 => exact .slnil
  | case2 t ts _ ih => exact ih.cons t
  | case3 t ts _ ih => exact ih.cons_cons t

theorem mem_binding_of_not_isId {parts : List Text} {t : Text} (h : t ∈ parts)
    (hid : isId t = false) : t ∈ binding parts := by
  fun_induction binding parts with
  | case1 => exact h
  | case2 u ts hlater ih =>
      rcases List.mem_cons.mp h with rfl | h
      · simp [hid] at hlater
      · exact ih h
  | case3 u ts _ ih =>
      rcases List.mem_cons.mp h with rfl | h
      · exact List.mem_cons_self
      · exact List.mem_cons_of_mem _ (ih h)

/-- Of the ids one counts. -/
theorem exists_isId_mem_binding {parts : List Text} (h : parts.any isId = true) :
    ∃ t ∈ binding parts, isId t = true := by
  fun_induction binding parts with
  | case1 => exact nomatch h
  | case2 u ts hlater ih =>
      simp only [Bool.and_eq_true] at hlater
      exact ih hlater.2
  | case3 u ts hlast ih =>
      by_cases hid : isId u = true
      · exact ⟨u, List.mem_cons_self, hid⟩
      · obtain ⟨t, ht, htid⟩ := ih (by simpa [hid] using h)
        exact ⟨t, List.mem_cons_of_mem _ ht, htid⟩

/-! ### Adding parts -/

/-- The classes and attribute tests of a selector accept the element. -/
def testsMatch (s : Selector) (e : Element) : Bool :=
  s.classesMatch e && s.attributes.all (attributeMatches e)

theorem accepts_eq (s : Selector) (e : Element) :
    s.accepts e = (s.tagMatches e && s.idMatches e && s.testsMatch e) := by
  rw [accepts, testsMatch, Bool.and_assoc _ (s.classesMatch e)]

theorem tagMatches_addPart (s : Selector) (p : Part) (e : Element) :
    (s.addPart p).tagMatches e = s.tagMatches e := by
  cases p <;> rfl

/-- An id takes the place of the one before. -/
theorem addPart_id (s : Selector) (name : Text) (e : Element) :
    (s.addPart (.id name)).idMatches e = (Part.id name).accepts e ∧
      (s.addPart (.id name)).testsMatch e = s.testsMatch e :=
  ⟨rfl, rfl⟩

/-- Every other part is one more condition. -/
theorem addPart_of_ne_id (s : Selector) {p : Part} (h : ∀ name, p ≠ .id name) (e : Element) :
    (s.addPart p).idMatches e = s.idMatches e ∧
      (s.addPart p).testsMatch e = (s.testsMatch e && p.accepts e) := by
  cases p with
  | cls name =>
      refine ⟨rfl, ?_⟩
      simp [addPart, testsMatch, classesMatch, Part.accepts, Bool.and_right_comm]
  | id name => exact absurd rfl (h name)
  | attr name value =>
      refine ⟨rfl, ?_⟩
      simp [addPart, testsMatch, classesMatch, Part.accepts, Bool.and_assoc]

/-- Adding parts asks for what the parts that count ask for. -/
theorem accepts_foldl_addPart {parts : List Text} (h : ∀ t ∈ parts, IsPart t) (s : Selector)
    (e : Element) :
    ((parts.filterMap partOf?).foldl addPart s).accepts e = true ↔
      s.tagMatches e = true ∧ (parts.any isId = true ∨ s.idMatches e = true) ∧
        s.testsMatch e = true ∧
        ∀ t ∈ binding parts, ∃ p, partOf? t = some p ∧ p.accepts e = true := by
  -- The selector so far is general: its id counts only where no part brings another.
  induction parts generalizing s with
  | nil => simp [binding, accepts_eq, and_assoc]
  | cons t parts ih =>
      rw [List.forall_mem_cons] at h
      obtain ⟨p, hp⟩ := h.1
      have hpart := partOf?_eq_some hp
      rw [List.filterMap_cons_some hpart, List.foldl_cons, ih h.2, tagMatches_addPart]
      cases hid : isId t with
      | false =>
          have hne : ∀ name, p ≠ .id name := by
            rintro name rfl
            rw [(isId_iff hp).mpr ⟨name, rfl⟩] at hid
            exact Bool.noConfusion hid
          rw [(addPart_of_ne_id s hne e).1, (addPart_of_ne_id s hne e).2]
          simp [binding, hid, hpart, and_assoc]
      | true =>
          obtain ⟨name, rfl⟩ := (isId_iff hp).mp hid
          rw [(addPart_id s name e).1, (addPart_id s name e).2]
          cases hlater : parts.any isId with
          | true => simp [binding, hid, hlater]
          | false => simp [binding, hid, hlater, hpart, and_left_comm]

/-- All ids of some parts are the same. -/
def SameId (parts : List Text) : Prop :=
  ∀ t ∈ parts, ∀ u ∈ parts, isId t = true → isId u = true → t = u

instance (parts : List Text) : Decidable (SameId parts) :=
  inferInstanceAs (Decidable (∀ t ∈ parts, ∀ u ∈ parts, isId t = true → isId u = true → t = u))

namespace Compound

variable {c : Compound}

theorem holds_text_iff (h : separate c.parts = true) (e : Element) :
    holds c.text e = .ok true ↔ ∀ t ∈ c.tag.toList ++ binding c.parts, holds t e = .ok true := by
  have hpart : ∀ t ∈ binding c.parts,
      ((∃ p, partOf? t = some p ∧ p.accepts e = true) ↔ holds t e = .ok true) := by
    intro t ht
    have hmem := (binding_sublist c.parts).subset ht
    obtain ⟨p, hp⟩ := c.isPart t hmem
    rw [holds_part hp (c.comma_not_mem t hmem), partOf?_eq_some hp]
    simp
  have htag : ∀ t ∈ c.tag.toList,
      (tagMatches { tag := (tagPart t).1 } e = true ↔ holds t e = .ok true) := by
    intro t ht
    rw [holds_tag (c.isTag t (Option.mem_toList.mp ht)), Except.ok.injEq]
  have hstart : tagMatches { tag := c.tag.bind fun t => (tagPart t).1 } e = true ↔
      ∀ t ∈ c.tag.toList, holds t e = .ok true := by
    rw [← forall₂_congr htag]
    cases c.tag <;> simp [tagMatches]
  rw [holds_text h, Except.ok.injEq, selector, accepts_foldl_addPart c.isPart, hstart,
    forall₂_congr hpart, List.forall_mem_append]
  simp [idMatches, testsMatch, classesMatch]

end Compound

/-- An element has one id, so the ids that accept it are the same. -/
theorem sameId_of_holds (c : Compound) {e : Element} (h : ∀ t ∈ c.parts, holds t e = .ok true) :
    SameId c.parts := by
  have hid : ∀ t ∈ c.parts, isId t = true → t = '#' :: (e.attribute? "id".toList).getD [] := by
    intro t ht hmark
    obtain ⟨p, hp⟩ := c.isPart t ht
    obtain ⟨name, rfl⟩ := (isId_iff hp).mp hmark
    have hholds := h t ht
    rw [holds_part hp (c.comma_not_mem t ht), Except.ok.injEq, Part.accepts, beq_iff_eq] at hholds
    rw [hholds, Option.getD_some, eq_of_part?_id hp]
  intro t ht u hu htid huid
  rw [hid t ht htid, hid u hu huid]

/-- A compound is never refused. It accepts the elements that its tag and the parts that count
accept alone, and this is to ask for all of its parts, except where it accepts an element although
its ids differ. -/
theorem holds_compound (c : Compound) (h : separate c.parts = true) (e : Element) :
    (∃ answer, holds c.text e = .ok answer) ∧
    (holds c.text e = .ok true ↔ ∀ t ∈ c.tag.toList ++ binding c.parts, holds t e = .ok true) ∧
    ((holds c.text e = .ok true ↔ ∀ t ∈ c.pieces, holds t e = .ok true) ↔
      (holds c.text e = .ok true → SameId c.parts)) := by
  have hbinding := Compound.holds_text_iff h e
  refine ⟨⟨_, Compound.holds_text h e⟩, hbinding, ?_, ?_⟩
  · intro hmeaning haccepts
    exact sameId_of_holds c fun t ht => hmeaning.mp haccepts t (List.mem_append_right _ ht)
  · intro hsame
    constructor
    · intro haccepts t ht
      rcases List.mem_append.mp ht with htag | hpart
      · exact hbinding.mp haccepts t (List.mem_append_left _ htag)
      · cases hid : isId t with
        | false =>
            exact hbinding.mp haccepts t
              (List.mem_append_right _ (mem_binding_of_not_isId hpart hid))
        | true =>
            obtain ⟨u, hu, huid⟩ :=
              exists_isId_mem_binding (List.any_eq_true.mpr ⟨t, hpart, hid⟩)
            have hmem := (binding_sublist c.parts).subset hu
            rw [hsame haccepts t hpart u hmem hid huid]
            exact hbinding.mp haccepts u (List.mem_append_right _ hu)
    · intro hall
      rw [hbinding]
      intro t ht
      refine hall t ?_
      rcases List.mem_append.mp ht with htag | hpart
      · exact List.mem_append_left _ htag
      · exact List.mem_append_right _ ((binding_sublist c.parts).subset hpart)

/-- A tag, a class, an id and a test with a value in quotes. -/
def submitButton : Compound where
  tag := some "button".toList
  parts := [".primary".toList, "#save".toList, "[type=\"submit\"]".toList]
  isTag := by
    rintro _ ⟨⟩
    exact .inr ⟨'b', "utton".toList, rfl, by decide, List.all_eq_true.mp (by decide +kernel)⟩
  isPart := by decide +kernel
  comma_not_mem := by decide +kernel
  pieces_ne_nil := by decide

theorem holds_compound_submitButton :
    let e : Element :=
      { tag := "button".toList
        attributes := [("type".toList, "submit".toList), ("className".toList, "btn primary".toList),
          ("id".toList, "save".toList)] }
    separate submitButton.parts = true ∧ holds submitButton.text e = .ok true ∧
      ∀ t ∈ submitButton.pieces, holds t e = .ok true := by
  intro e
  have hquotes : separate submitButton.parts = true := by decide +kernel
  have haccepts : holds submitButton.text e = .ok true := by decide +kernel
  obtain ⟨-, -, hmeaning⟩ := holds_compound submitButton hquotes e
  exact ⟨hquotes, haccepts, (hmeaning.mpr fun _ => by decide +kernel).mp haccepts⟩

/-- Of two ids the first is passed over, and a quote that a test leaves open hides another test. -/
theorem compound_passes_over_parts :
    (∃ (c : Compound) (e : Element), c.pieces = ["#a".toList, "#b".toList] ∧
      holds c.text e = .ok true ∧ holds "#a".toList e = .ok false) ∧
    ∃ (c : Compound) (e : Element), c.pieces = ["[a=\"x]".toList, "[b=y\"]".toList] ∧
      holds c.text e = .ok false ∧ ∀ t ∈ c.pieces, holds t e = .ok true := by
  constructor
  · exact ⟨⟨none, ["#a".toList, "#b".toList], by simp, by decide +kernel, by decide, by decide⟩,
      { tag := "div".toList, attributes := [("id".toList, "b".toList)] }, rfl, by decide +kernel,
      by decide +kernel⟩
  · exact ⟨⟨none, ["[a=\"x]".toList, "[b=y\"]".toList], by simp, by decide +kernel, by decide,
      by decide⟩,
      { tag := "div".toList
        attributes := [("a".toList, "\"x".toList), ("b".toList, "y\"".toList)] }, rfl,
      by decide +kernel, by decide +kernel⟩

end MarkupIds.Selector
