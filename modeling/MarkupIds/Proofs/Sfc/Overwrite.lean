import MarkupIds.Proofs.Collision
import MarkupIds.Proofs.Sfc.Apart
import MarkupIds.Proofs.Sfc.Locality
import MarkupIds.Proofs.Sfc.Site

/-!
# An attribute that is set in a component is read back

The edited tag is found again at its column: no comment moves, and no tag in front of it is read
otherwise than before. Its attributes are read one by one, and the edited one is the last of its
name.
-/

namespace MarkupIds.Sfc

/-! ## The text of a tag around one attribute -/

theorem not_infix_quoted {value : Text} (h : '<' ∉ value) : ¬ "<!--".toList <:+: quoted value := by
  intro hmark
  have hmem : '<' ∈ quoted value := hmark.subset (by decide)
  rcases List.mem_append.mp (Text.replace_subset _ _ _ hmem) with hmem | hmem
  · exact h hmem
  · exact absurd hmem (by decide)

namespace OpenTag

variable {t : OpenTag} {name value : Text}

/-- A tag before and after an attribute is set: the same text around one attribute. -/
theorem Sound.exists_render_set (h : t.Sound) (name : Text) :
    ∃ front back blank, Text.isBlank blank = true ∧ EndsInk front ∧ front ≠ [] ∧
      t.render = front ++
        ((t.attributes.find? (·.name == name)).toList.flatMap Written.render ++ back) ∧
      (∀ value, (t.set name value).render =
        front ++ ((spelled blank name (quoted value)).render ++ back)) ∧
      (∀ rest, ∀ w ∈ t.attributes.find? (·.name == name), w.Stops (back ++ rest)) ∧
      (t.selfClosing = false →
        ∀ rest, ∀ c ∈ (back ++ rest).head?, Text.isBlank c = true ∨ c = '>') := by
  obtain ⟨before, behind, blank, hparts, _, hblank, hset⟩ :=
    exists_setWritten name h.attributes
  have hsound : ∀ w ∈ before, w.Sound := fun w hw => h.attributes w (by rw [hparts]; simp [hw])
  have hbehind : ∀ w ∈ behind, w.Sound := fun w hw => h.attributes w (by rw [hparts]; simp [hw])
  have hstart : ({ t with attributes := before, selfClosing := false } : OpenTag).Sound :=
    ⟨h.name, hsound, h.blanks, by simp⟩
  refine ⟨'<' :: (t.name ++ before.flatMap Written.render),
    behind.flatMap Written.render ++ t.closing, blank, hblank, hstart.endsInk_opening, by simp,
    ?_, ?_, ?_, ?_⟩
  · rw [render_eq, attributeText]
    conv_lhs => rw [hparts]
    simp
  · intro value
    rw [render_eq, attributeText, OpenTag.set, hset]
    simp [closing]
  · intro rest w hw
    rw [List.append_assoc]
    apply stops_flatMap hbehind
    intro v hv
    refine h.stops_closing rest v ?_
    rw [hparts, Option.mem_def.mp hw]
    rw [Option.mem_def] at hv ⊢
    simp [List.getLast?_append, hv]
  · intro hopen rest c hc
    rw [List.append_assoc] at hc
    cases behind with
    | nil => exact h.closing_head? hopen rest c hc
    | cons w ws =>
        obtain ⟨d, hhead, hblank⟩ :=
          (hbehind w (by simp)).isBlank_head? (ws.flatMap Written.render ++ (t.closing ++ rest))
        rw [List.flatMap_cons, List.append_assoc, hhead] at hc
        obtain rfl := Option.some.inj hc
        exact .inl hblank

theorem Unmarked.set (h : t.Unmarked) (ht : t.Sound) (hname : ¬ "<!--".toList <:+: name)
    (hvalue : '<' ∉ value) : (t.set name value).Unmarked := by
  obtain ⟨front, back, blank, hblank, _, _, hold, hnew, _, _⟩ := ht.exists_render_set name
  rw [Unmarked, hold] at h
  rw [Unmarked, hnew]
  refine not_infix_spelled hblank hname (not_infix_quoted hvalue) ?_ ?_
  · exact fun hmark => h (hmark.trans (List.prefix_append _ _).isInfix)
  · exact fun hmark => h (hmark.trans ((List.suffix_append _ _).trans
      (List.suffix_append _ _)).isInfix)

/-- Where no tag is read, none is read after a value has been set in a tag further on, if no
apostrophe goes with the old value. -/
theorem Sound.set_openTag?_eq_none (h : t.Sound) (hopen : t.selfClosing = false)
    (hplain : Plain name value)
    (hold : ∀ w ∈ t.attributes.find? (·.name == name), '\'' ∉ w.render) {front rest : Text}
    (hread : openTag? (front ++ (t.render ++ rest)) = none) :
    openTag? (front ++ ((t.set name value).render ++ rest)) = none := by
  obtain ⟨before, back, blank, hblank, hink, hne, hrender, hset, hstops, hhead⟩ :=
    h.exists_render_set name
  have hquoted : quoted value = value :=
    Text.replace_of_not_mem (hplain.not_mem_value (c := '"') (by decide)) _
  rw [hrender, List.append_assoc, List.append_assoc, ← List.append_assoc] at hread
  rw [hset, hquoted, List.append_assoc, List.append_assoc, ← List.append_assoc]
  refine openTag?_replace_eq_none hplain hblank ?_ ?_ ?_ (endsInk_append hne hink)
    (hhead hopen rest) hread
  · intro w hw
    exact h.attributes w (List.mem_of_find?_eq_some (by simpa using hw))
  · intro w hw
    apply hstops rest w
    cases hfind : t.attributes.find? (·.name == name) with
    | none => simp [hfind] at hw
    | some v => simpa [hfind] using hw
  · intro hmem
    obtain ⟨w, hw, hrender⟩ := List.mem_flatMap.mp hmem
    exact hold w (by simpa using hw) hrender

end OpenTag

/-! ## Finding the tag again -/

/-- A bracket and a letter. -/
def startsTag : Text → Bool
  | '<' :: c :: _ => Text.isAsciiLetter c
  | _ => false

/-- The columns at which something starts like a tag and is none, tags left out. -/
def unfinished : (fuel n : ℕ) → Text → List ℕ
  | 0, _, _ => []
  | fuel + 1, n, cs =>
    match openTag? cs with
    | some (_, rest) => unfinished fuel (n + (cs.length - rest.length)) rest
    | none =>
      match cs with
      | [] => []
      | c :: cs =>
        (if startsTag (c :: cs) then [n] else []) ++ unfinished fuel (n + 1) cs

theorem openTag?_eq_none_of_startsTag {cs : Text} (h : startsTag cs = false) :
    openTag? cs = none := by
  by_contra hsome
  obtain ⟨⟨t, after⟩, hread⟩ := Option.ne_none_iff_exists'.mp hsome
  obtain ⟨ht, rfl⟩ := openTag?_sound hread
  obtain ⟨c, cs, hname, hletter, _⟩ := ht.name
  rw [OpenTag.render_eq, hname] at h
  exact absurd (hletter.symm.trans h) (by decide)

/-- Whether a tag starts does not depend on what stands behind the next bracket. -/
theorem startsTag_append {front rest rest' : Text} (hne : front ≠ []) :
    startsTag (front ++ '<' :: rest) = startsTag (front ++ '<' :: rest') := by
  cases front with
  | nil => exact absurd rfl hne
  | cons c front =>
      by_cases hc : c = '<'
      · subst hc
        cases front <;> rfl
      · simp [startsTag, hc]

/-- A tag in another one's place is read where that one was read, if what was no tag in front of it
is none now. -/
theorem mem_openTags_replace {t u : OpenTag} (hu : u.Sound) {column : ℕ} {after : Text}
    {fuel n : ℕ} {cs : Text} (h : (column, t, after) ∈ openTags fuel n cs)
    (hnone : ∀ front, (∃ m ∈ unfinished fuel n cs, m + front.length = column) →
      openTag? (front ++ (t.render ++ after)) = none →
      openTag? (front ++ (u.render ++ after)) = none)
    {fuel' : ℕ} (hfuel : column < n + fuel') :
    ∃ front, cs = front ++ (t.render ++ after) ∧ column = n + front.length ∧
      (column, u, after) ∈ openTags fuel' n (front ++ (u.render ++ after)) := by
  induction fuel generalizing n cs fuel' with
  | zero => exact absurd h List.not_mem_nil
  | succ fuel ih =>
      obtain ⟨fuel', rfl⟩ : ∃ k, fuel' = k + 1 :=
        Nat.exists_eq_succ_of_ne_zero (by have := le_of_mem_openTags h; omega)
      rw [openTags.eq_def] at h
      rw [unfinished.eq_def] at hnone
      dsimp only at h hnone
      cases hread : openTag? cs with
      | some found =>
          obtain ⟨v, rest⟩ := found
          obtain ⟨hv, rfl⟩ := openTag?_sound hread
          have hpos : 0 < v.render.length := by simp [OpenTag.render_eq]
          simp only [hread, List.length_append, Nat.add_sub_cancel_right, List.mem_cons] at h hnone
          rcases h with hhere | hlater
          · obtain ⟨rfl, rfl, rfl⟩ : column = n ∧ t = v ∧ after = rest := by simpa using hhere
            refine ⟨[], rfl, rfl, ?_⟩
            rw [List.nil_append, openTags.eq_def]
            simp [openTag?_render hu]
          · have hbehind : column < n + v.render.length + fuel' := by omega
            obtain ⟨front, rfl, hcolumn, hfound⟩ := ih hlater hnone hbehind
            refine ⟨v.render ++ front, by simp, by rw [List.length_append]; omega, ?_⟩
            rw [List.append_assoc, openTags.eq_def]
            simp only [openTag?_render hv, List.length_append, Nat.add_sub_cancel_right]
            exact List.mem_cons_of_mem _ hfound
      | none =>
          cases cs with
          | nil => simp [hread] at h
          | cons c cs =>
              simp only [hread, List.mem_append] at h hnone
              have hbehind : column < n + 1 + fuel' := by omega
              obtain ⟨front, rfl, hcolumn, hfound⟩ := ih h
                (fun front hm => hnone front (hm.imp fun m hm => ⟨.inr hm.1, hm.2⟩)) hbehind
              refine ⟨c :: front, rfl, by rw [List.length_cons]; omega, ?_⟩
              have hnew : openTag? (c :: front ++ (u.render ++ after)) = none := by
                by_cases hstarts : startsTag (c :: (front ++ (t.render ++ after))) = true
                · refine hnone (c :: front) ⟨n, .inl (by simp [hstarts]), ?_⟩ hread
                  rw [List.length_cons]
                  omega
                · apply openTag?_eq_none_of_startsTag
                  rw [Bool.not_eq_true, ← List.cons_append, t.render_eq] at hstarts
                  rw [u.render_eq, List.cons_append, ← hstarts]
                  exact startsTag_append (List.cons_ne_nil c front)
              rw [List.cons_append] at hnew ⊢
              rw [openTags.eq_def]
              simp only [hnew]
              exact hfound

/-! ## Reading the attribute -/

/-- No attribute behind the first one of a name is read under that name. -/
def OpenTag.NamedOnce (t : OpenTag) (name : Text) : Prop :=
  ∀ w ∈ (t.attributes.dropWhile (·.name != name)).tail,
    Attributes.has (readAttributes w.render) name = false

instance (t : OpenTag) (name : Text) : Decidable (t.NamedOnce name) :=
  inferInstanceAs (Decidable (∀ w ∈ (t.attributes.dropWhile (·.name != name)).tail,
    Attributes.has (readAttributes w.render) name = false))

/-- A value that is set is the one that is read. -/
theorem OpenTag.get?_set {t : OpenTag} (ht : t.Sound) (hapart : ∀ w ∈ t.attributes, w.Apart)
    {name value : Text} (hname : isFullName name = true) (hplain : Plain name value)
    (honce : t.NamedOnce name) :
    Attributes.get? (readAttributes (t.set name value).attributeText) name = some value := by
  obtain ⟨front, back, blank, hparts, hback, hblank, hset⟩ :=
    exists_setWritten name ht.attributes
  have hquoted : quoted value = value :=
    Text.replace_of_not_mem (hplain.not_mem_value (c := '"') (by decide)) _
  have hnew := hplain.spelled_sound hblank
  have hread : readPairs (spelled blank name value).render = [(name, value)] := by
    have hwhole := readPairs_written hnew hname (Written.stops_nil _)
    rwa [List.append_nil] at hwhole
  have hsound : ∀ w ∈ front ++ spelled blank name value :: back, w.Sound := by
    intro w hw
    rw [List.mem_append, List.mem_cons] at hw
    rcases hw with hw | rfl | hw
    · exact ht.attributes w (by rw [hparts]; simp [hw])
    · exact hnew
    · exact ht.attributes w (by rw [hparts]; simp [hw])
  have hall : ∀ w ∈ front ++ spelled blank name value :: back, w.Apart := by
    intro w hw
    rw [List.mem_append, List.mem_cons] at hw
    rcases hw with hw | rfl | hw
    · exact hapart w (by rw [hparts]; simp [hw])
    · exact .inl hname
    · exact hapart w (by rw [hparts]; simp [hw])
  have hpairs : readPairs (t.set name value).attributeText =
      front.flatMap (fun w => readPairs w.render) ++ (name, value) ::
        back.flatMap (fun w => readPairs w.render) := by
    rw [OpenTag.attributeText, OpenTag.set, hquoted]
    dsimp only
    rw [hset, readPairs_flatMap hsound hall, List.flatMap_append, List.flatMap_cons, hread]
    rfl
  rw [readAttributes, ← readPairs, hpairs]
  apply Attributes.get?_foldl_set_of_last
  intro p hp
  obtain ⟨w, hw, hp⟩ := List.mem_flatMap.mp hp
  have hother := honce w (by rw [← hback]; exact hw)
  rw [readAttributes, Attributes.has_foldl_set, Bool.or_eq_false_iff, List.any_eq_false] at hother
  simpa using hother.2 p hp

/-! ## Setting an attribute at a site -/

theorem Progress.step_eq {start i : ℕ} {p : Progress} {e : Edit} {line line' : Text}
    (hplace : e.position.line = start + i) (hline : p.lines[i]? = some line)
    (hedit : editLine line e = .ok line') :
    p.step start e = { p with lines := p.lines.set i line', applied := p.applied ++ [e] } := by
  have hindex : e.position.line - start = (i : ℤ) := by omega
  have hlines : editLines start p.lines e = .ok (p.lines.set i line') := by
    simp [editLines, hindex, hline, hedit, bind, Except.bind, pure, Except.pure]
  rw [step, hlines]

namespace Site

variable {source : Text}

/-- The edit sets an attribute of the tag at this site. -/
structure SetBy (s : Site source) (e : Edit) : Prop where
  kind : e.kind ≠ .remove
  tag : e.element.tag = s.tag.name
  line : e.position.line = s.template.startLine + (s.index : ℤ)
  column : e.position.column = s.column + 1

/-- An edit at the place of an element is one at its site. -/
theorem Shows.setBy {s : Site source} {e : Edit} (h : s.Shows e.element) (hkind : e.kind ≠ .remove)
    (hplace : e.element.position = some e.position) : s.SetBy e := by
  obtain ⟨offset, helement⟩ := h
  rw [helement] at hplace
  have hposition := Option.some.inj hplace
  refine ⟨hkind, by rw [helement]; rfl, ?_, ?_⟩
  · rw [← hposition]
    push_cast
    rfl
  · rw [← hposition]

theorem SetBy.editLine_eq {s : Site source} {e : Edit} (h : s.SetBy e) {front : Text}
    (hfront : front.length = s.column) (rest : Text) :
    editLine (front ++ (s.tag.render ++ rest)) e =
      .ok (front ++ ((s.tag.set e.name e.value).render ++ rest)) := by
  have hcolumn : (e.position.column - 1).toNat = front.length := by
    rw [h.column]
    omega
  rw [editLine_render s.sound h.tag hcolumn, if_neg h.kind]

/-- A value that is set at this site can be read back: the tag stands free of comments, its
attributes can be read one by one, none behind the edited one has its name, and no apostrophe is
taken away behind something that starts like a tag and is none. -/
structure Settable (s : Site source) (name : Text) : Prop where
  unmasked : s.Unmasked
  apart : ∀ w ∈ s.tag.attributes, w.Apart
  once : s.tag.NamedOnce name
  finished : (∀ w ∈ s.tag.attributes.find? (·.name == name), '\'' ∉ w.render) ∨
    ∀ column ∈ unfinished (s.masked.length + 1) 0 s.masked, s.column ≤ column

namespace Settable

variable {s : Site source} {e : Edit}

/-- The tag with the value is read at the same column of the masked line. -/
theorem found_set (h : s.Settable e.name) (hplain : Plain e.name e.value) {shown : Text}
    (hmasked : s.masked = shown ++ (s.tag.render ++ s.after)) (hlength : shown.length = s.column) :
    let masked := shown ++ ((s.tag.set e.name e.value).render ++ s.after)
    (s.column, s.tag.set e.name e.value, s.after) ∈ openTags (masked.length + 1) 0 masked := by
  intro masked
  have hsound : (s.tag.set e.name e.value).Sound :=
    s.sound.set hplain.name_ne (fun c hc => (hplain.name c hc).1) e.value
  have hnone : ∀ front,
      (∃ m ∈ unfinished (s.masked.length + 1) 0 s.masked, m + front.length = s.column) →
      openTag? (front ++ (s.tag.render ++ s.after)) = none →
      openTag? (front ++ ((s.tag.set e.name e.value).render ++ s.after)) = none := by
    rintro front ⟨m, hm, hcolumn⟩ hread
    by_cases hfront : front = []
    · subst hfront
      rw [List.nil_append, openTag?_render s.sound] at hread
      exact nomatch hread
    · have hpos := List.length_pos_iff.mpr hfront
      rcases h.finished with hquote | hfinished
      · exact s.sound.set_openTag?_eq_none s.unclosed hplain hquote hread
      · have hbehind := hfinished m hm
        omega
  have hfuel : s.column < 0 + (masked.length + 1) := by
    rw [List.length_append]
    omega
  obtain ⟨front, hfront, hcolumn, hfound⟩ := mem_openTags_replace hsound s.found hnone hfuel
  rw [hmasked] at hfront
  obtain ⟨rfl, _⟩ := List.append_inj hfront (by omega)
  exact hfound

/-- The edit can be made, and the tag stands at its place with the value. -/
theorem exists_set (h : s.Settable e.name) (hplain : Plain e.name e.value) (hset : s.SetBy e) :
    ∃ line, editLine s.raw e = .ok line ∧
      ∀ code, section? code "template" =
          some { s.template with lines := s.template.lines.set s.index line } →
        ∃ s' : Site code, s'.template.startLine = s.template.startLine ∧ s'.index = s.index ∧
          s'.column = s.column ∧ s'.tag = s.tag.set e.name e.value := by
  obtain ⟨front, rest, shown, hraw, hfront, hmasked, hlength, hunmarked, _, hreplace⟩ :=
    h.unmasked.exists_split
  have hname : ¬ "<!--".toList <:+: e.name :=
    fun hmark => (hplain.name '<' (hmark.subset (by decide))).2 rfl
  have hvalue : '<' ∉ e.value := fun hmem => (hplain.value _ hmem).2 rfl
  refine ⟨front ++ ((s.tag.set e.name e.value).render ++ rest), ?_, fun code hcode => ?_⟩
  · rw [hraw]
    exact hset.editLine_eq hfront rest
  · exact s.exists_relocated (hreplace _ (hunmarked.set s.sound hname hvalue))
      (h.found_set hplain hmasked hlength) s.unclosed hcode

end Settable

end Site

/-- An edit that sets an attribute at a settable site is made, and the element at the same place of
the new file has the value. -/
theorem revise_set {source : Text} {s : Site source} {e : Edit} (hsettable : s.Settable e.name)
    (hname : isFullName e.name = true) (hplain : Plain e.name e.value) (hset : s.SetBy e)
    (path : Text) :
    let r := revise source [e]
    r.applied = [e] ∧ r.diagnostics = [] ∧
      ∃ e' ∈ (read r.code path).elements, e'.attribute? e.name = some e.value ∧
        ∃ place, e'.position = some place ∧ place.line = e.position.line ∧
          place.column = e.position.column := by
  obtain ⟨line, hedit, hsite⟩ := hsettable.exists_set hplain hset
  have hdone : (bottomUp [e]).foldl (Progress.step s.template.startLine)
      { lines := s.template.lines } =
      { lines := s.template.lines.set s.index line, applied := [e] } := by
    rw [bottomUp_eq_reverse (List.pairwise_singleton _ _)]
    exact Progress.step_eq hset.line s.raw_eq hedit
  have hbreaks : ∀ f ∈ [e], '\n' ∉ f.name ∧ '\n' ∉ f.value := by
    rw [List.forall_mem_singleton]
    exact ⟨hplain.not_mem_name (by decide), hplain.not_mem_value (by decide)⟩
  obtain ⟨hsection, hrevise⟩ := revise_eq s.template_eq (by simp) hbreaks hdone
  obtain ⟨s', hstart, hindex, hcolumn, htag⟩ := hsite _ hsection
  intro r
  have hr : r = _ := hrevise
  rw [if_neg (by simp)] at hr
  obtain ⟨e', he', offset, hshows⟩ := s'.exists_element path
  refine ⟨by rw [hr], by rw [hr], e', by rw [hr]; exact he', ?_, ?_⟩
  · rw [hshows, Element.attribute?]
    simp only [tagElement, htag]
    exact OpenTag.get?_set s.sound hsettable.apart hname hplain hsettable.once
  · refine ⟨_, by rw [hshows]; rfl, ?_, ?_⟩
    · rw [hset.line, hstart, hindex]
      push_cast
      rfl
    · rw [hset.column, hcolumn]

end MarkupIds.Sfc
