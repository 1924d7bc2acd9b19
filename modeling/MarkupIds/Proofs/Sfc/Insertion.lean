import MarkupIds.Proofs.Sfc.Rendering

/-!
# Writing an attribute makes no new tag

An attribute is written into a line after a character that is no blank, perhaps in place of one
that stood there. Wherever a tag is read on the new line, one is read on the old line too: the
attribute is one of the tag's own or lies in a value in single quotes.
-/

namespace MarkupIds.Sfc

/-- The attribute as it is written into tags. -/
def added (name value : Text) : Written :=
  { blanks := [' '], name, assignment := some { value } }

/-- An attribute that can be written into tags: nothing in it ends a name, a value or a tag. -/
structure Plain (name value : Text) : Prop where
  name_ne : name ≠ []
  name : ∀ c ∈ name, isNameChar c = true ∧ c ≠ '<'
  value : ∀ c ∈ value, isNameChar c = true ∧ c ≠ '<'

/-- Text that is empty or ends in something other than a blank. -/
def EndsInk (text : Text) : Prop :=
  ∀ c ∈ text.getLast?, Text.isBlank c = false

/-- Text that can follow an attribute. -/
def Follows (rest : Text) : Prop :=
  ∀ c ∈ rest.head?, Text.isBlank c = true ∨ c = '>' ∨ c = '/'

/-- The attribute behind any one blank. -/
def spelled (blank : Char) (name value : Text) : Written :=
  { blanks := [blank], name, assignment := some { value } }

theorem spelled_render (blank : Char) (name value : Text) :
    (spelled blank name value).render = blank :: (name ++ '=' :: '"' :: (value ++ ['"'])) := by
  simp [spelled, Written.render, Assignment.render]

theorem added_render (name value : Text) :
    (added name value).render = ' ' :: (name ++ '=' :: '"' :: (value ++ ['"'])) :=
  spelled_render ' ' name value

theorem Plain.not_mem_value {name value : Text} (h : Plain name value) {c : Char}
    (hc : isNameChar c = false) : c ∉ value := by
  intro hmem
  rw [(h.value c hmem).1] at hc
  exact Bool.noConfusion hc

theorem Plain.not_mem_name {name value : Text} (h : Plain name value) {c : Char}
    (hc : isNameChar c = false) : c ∉ name := by
  intro hmem
  rw [(h.name c hmem).1] at hc
  exact Bool.noConfusion hc

theorem Plain.spelled_sound {name value : Text} (h : Plain name value) {blank : Char}
    (hblank : Text.isBlank blank = true) : (spelled blank name value).Sound := by
  refine ⟨by simp [spelled], ?_, h.name_ne, fun c hc => (h.name c hc).1, ?_⟩
  · intro c hc
    obtain rfl : c = blank := by simpa [spelled] using hc
    exact hblank
  · intro a ha
    obtain rfl : ({ value } : Assignment) = a := by simpa [spelled] using ha
    exact ⟨by simp, by simp, h.not_mem_value (by decide)⟩

theorem Plain.sound {name value : Text} (h : Plain name value) : (added name value).Sound :=
  h.spelled_sound (by decide)

theorem spelled_stops (blank : Char) (name value rest : Text) :
    (spelled blank name value).Stops rest := by
  refine ⟨by simp [spelled], by simp [spelled], ?_⟩
  intro a ha
  obtain rfl : ({ value } : Assignment) = a := by simpa [spelled] using ha
  exact fun h => nomatch h

theorem Plain.exists_name_eq {name value : Text} (h : Plain name value) :
    ∃ c cs, name = c :: cs ∧ isNameChar c = true := by
  cases hname : name with
  | nil => exact absurd hname h.name_ne
  | cons c cs => exact ⟨c, cs, rfl, (h.name c (by simp [hname])).1⟩

/-! ## Peeling runs off the front -/

theorem EndsInk.of_append {front text : Text} (h : EndsInk (front ++ text)) : EndsInk text := by
  intro c hc
  apply h c
  rw [List.getLast?_append, Option.mem_def.mp hc]
  rfl

theorem EndsInk.not_isBlank {text : Text} (h : EndsInk text) (hne : text ≠ []) :
    ∃ c ∈ text, Text.isBlank c = false := by
  refine ⟨text.getLast hne, List.getLast_mem hne, h _ ?_⟩
  exact List.getLast?_eq_some_getLast hne

/-- A run of blanks ends before the text does. -/
theorem EndsInk.peel_blanks {text run rest tail : Text} (h : EndsInk text) (hne : text ≠ [])
    (hrun : ∀ c ∈ run, Text.isBlank c = true) (heq : text ++ rest = run ++ tail) :
    ∃ text', text = run ++ text' ∧ text' ≠ [] ∧ text' ++ rest = tail := by
  rcases List.append_eq_append_iff.mp heq with ⟨k, hk, _⟩ | ⟨k, hk, htail⟩
  · obtain ⟨c, hmem, hblank⟩ := h.not_isBlank hne
    have hrunBlank := hrun c (by rw [hk]; exact List.mem_append_left _ hmem)
    exact absurd hrunBlank (by simp [hblank])
  · refine ⟨k, hk, ?_, htail.symm⟩
    rintro rfl
    obtain ⟨c, hmem, hblank⟩ := h.not_isBlank hne
    have hrunBlank := hrun c (by rwa [hk, List.append_nil] at hmem)
    exact absurd hrunBlank (by simp [hblank])

/-- A run without blanks does not go on past the text, where a blank stands. -/
theorem peel_ink {text run rest tail : Text} (hrun : ∀ c ∈ run, Text.isBlank c = false)
    {blank : Char} (hblank : Text.isBlank blank = true) (hrest : rest.head? = some blank) (heq : text ++ rest = run ++ tail) :
    ∃ text', text = run ++ text' ∧ text' ++ rest = tail := by
  rcases List.append_eq_append_iff.mp heq with ⟨k, hk, htail⟩ | ⟨k, hk, htail⟩
  · cases k with
    | nil =>
        refine ⟨[], by simpa using hk.symm, ?_⟩
        simpa using htail
    | cons c k =>
        obtain rfl : c = blank := by
          rw [htail] at hrest
          simpa using hrest
        exact absurd (hrun c (by simp [hk])) (by simp [hblank])
  · exact ⟨k, hk, htail.symm⟩

/-- A value in quotes takes a text without its quote as a whole or not at all. -/
theorem split_before {quote : Char} {front rest body tail : Text}
    (hfront : quote ∉ front) (heq : front ++ rest = body ++ quote :: tail) :
    ∃ body', body = front ++ body' ∧ rest = body' ++ quote :: tail := by
  rcases List.append_eq_append_iff.mp heq with ⟨k, hk, hrest⟩ | ⟨k, hk, htail⟩
  · exact ⟨k, hk, hrest⟩
  · cases k with
    | nil => exact ⟨[], by simpa using hk.symm, by simpa using htail.symm⟩
    | cons c k =>
        obtain rfl : quote = c := by simpa using (List.cons.inj htail).1
        exact absurd (by simp [hk]) hfront

/-! ## Where the insertion falls -/

theorem follows_flatMap {ws : List Written} (hws : ∀ w ∈ ws, w.Sound) {rest : Text}
    (hrest : Follows rest) : Follows (ws.flatMap Written.render ++ rest) := by
  cases ws with
  | nil => simpa using hrest
  | cons w ws =>
      obtain ⟨c, hhead, hblank⟩ :=
        (hws w (by simp)).isBlank_head? (ws.flatMap Written.render ++ rest)
      intro d hd
      rw [List.flatMap_cons, List.append_assoc, hhead, Option.mem_some] at hd
      subst hd
      exact .inl hblank

theorem OpenTag.Sound.name_ink {t : OpenTag} (h : t.Sound) :
    ∀ c ∈ '<' :: t.name, Text.isBlank c = false := by
  obtain ⟨c, cs, hname, hletter, htag⟩ := h.name
  intro d hd
  rw [hname] at hd
  simp only [List.mem_cons] at hd
  rcases hd with rfl | rfl | hd
  · decide
  · exact (isNameChar_iff.mp (isNameChar_of_isTagChar (isTagChar_of_isAsciiLetter hletter))).1
  · exact (isNameChar_iff.mp (isNameChar_of_isTagChar (htag d hd))).1

theorem OpenTag.follows_closing {t : OpenTag} (ht : t.Sound) (after : Text) :
    Follows (t.closing ++ after) := by
  obtain ⟨mark, tail, hclosing, hmark, _⟩ := t.closing_cases
  intro c hc
  cases hblanks : t.blanks with
  | nil =>
      obtain rfl : mark = c := by simpa [hclosing, hblanks] using hc
      exact .inr hmark
  | cons d ds =>
      obtain rfl : d = c := by simpa [hclosing, hblanks] using hc
      exact .inl (ht.blanks d (by simp [hblanks]))

/-! A text `old` without an apostrophe stands between `front` and `back`, and the attribute is
written in its place. -/

section Cut

variable {blank : Char} {name value front old back rest : Text}

theorem spelled_head? (blank : Char) (name value back : Text) :
    ((spelled blank name value).render ++ back).head? = some blank := by
  rw [spelled_render]
  rfl

/-- In a value in quotes the cut lies behind the closing quote or between the two. -/
theorem cut_quoted {quote : Char} (hquote : quote ≠ blank) {inner tail : Text} (hne : front ≠ [])
    (htail : tail.head? = some blank) (heq : front ++ tail = quote :: (inner ++ quote :: rest)) :
    (∃ k, front = quote :: (inner ++ quote :: k)) ∨
      ∃ front' k, front = quote :: front' ∧ inner = front' ++ k ∧ tail = k ++ quote :: rest := by
  cases front with
  | nil => exact absurd rfl hne
  | cons c front =>
      rw [List.cons_append, List.cons.injEq] at heq
      obtain ⟨rfl, heq⟩ := heq
      rcases List.append_eq_append_iff.mp heq with ⟨k, hk, hrest⟩ | ⟨k, hk, hrest⟩
      · exact .inr ⟨front, k, rfl, hk, hrest⟩
      · cases k with
        | nil =>
            rw [List.nil_append] at hrest
            rw [← hrest] at htail
            exact absurd (by simpa using htail) hquote
        | cons d k =>
            obtain rfl := (List.cons.inj hrest).1
            exact .inl ⟨k, by rw [hk]⟩

variable (hplain : Plain name value) (hblank : Text.isBlank blank = true)
include hplain hblank

theorem apostrophe_not_mem_spelled : '\'' ∉ (spelled blank name value).render := by
  have hother : '\'' ≠ blank := by
    rintro rfl
    exact absurd hblank (by decide)
  rw [spelled_render]
  simpa using ⟨hother, hplain.not_mem_name (by decide), hplain.not_mem_value (by decide)⟩

/-- No value in double quotes ends within the attribute: behind the quote that opens the new value
stands a character of that value or its closing quote. -/
theorem not_cut_double {k : Text} (hk : '"' ∉ k) (hrest : Follows rest) :
    (spelled blank name value).render ++ back ≠ k ++ '"' :: rest := by
  intro hcut
  have hopening : '"' ∉ blank :: (name ++ ['=']) := by
    have hother : '"' ≠ blank := by
      rintro rfl
      exact absurd hblank (by decide)
    simpa using ⟨hother, hplain.not_mem_name (by decide)⟩
  have hparts : (blank :: (name ++ ['='])) ++ '"' :: (value ++ '"' :: back) = k ++ '"' :: rest := by
    rw [← hcut, spelled_render]
    simp
  obtain ⟨k', rfl, hsplit⟩ := split_before hopening hparts
  cases k' with
  | cons c k' =>
      obtain rfl := (List.cons.inj hsplit).1
      exact absurd (by simp) hk
  | nil =>
      rw [List.nil_append, List.cons.injEq] at hsplit
      obtain ⟨-, rfl⟩ := hsplit
      cases value with
      | nil =>
          have hquote := hrest '"' rfl
          exact absurd hquote (by decide)
      | cons c cs =>
          have hc := isNameChar_iff.mp (hplain.value c (by simp)).1
          rcases hrest c rfl with hblank | rfl | rfl
          · exact absurd hblank (by simp [hc.1])
          · exact absurd rfl hc.2.2.2.1
          · exact absurd rfl hc.2.2.2.2.1

theorem cut_value (hold : '\'' ∉ old) {quoting : Quoting} {inner : Text}
    (hholds : quoting.Holds inner) (hne : front ≠ []) (hrest : Follows rest)
    (heq : front ++ ((spelled blank name value).render ++ back) = quoting.enclose inner ++ rest) :
    (∃ k, front = quoting.enclose inner ++ k) ∨
      quoting = .single ∧ ∃ inner', '\'' ∉ inner' ∧
        front ++ (old ++ back) = quoting.enclose inner' ++ rest := by
  have hhead := spelled_head? blank name value back
  have hquotes : ∀ quote : Char, Text.isBlank quote = false → quote ≠ blank := by
    rintro quote hink rfl
    rw [hblank] at hink
    exact Bool.noConfusion hink
  cases quoting with
  | bare =>
      have hink : ∀ c ∈ inner, Text.isBlank c = false :=
        fun c hc => (isBareChar_iff.mp (hholds.2 c hc)).1
      obtain ⟨k, hk, _⟩ := peel_ink hink hblank hhead heq
      exact .inl ⟨k, hk⟩
  | double =>
      simp only [Quoting.enclose, List.cons_append, List.append_assoc, List.nil_append] at heq ⊢
      rcases cut_quoted (hquotes _ (by decide)) hne hhead heq with
        ⟨k, hk⟩ | ⟨front', k, -, rfl, hcut⟩
      · exact .inl ⟨k, hk⟩
      · refine absurd hcut (not_cut_double hplain hblank ?_ hrest)
        exact fun hmem => hholds (List.mem_append_right _ hmem)
  | single =>
      simp only [Quoting.enclose, List.cons_append, List.append_assoc, List.nil_append] at heq ⊢
      rcases cut_quoted (hquotes _ (by decide)) hne hhead heq with
        ⟨k, hk⟩ | ⟨front', k, rfl, rfl, hcut⟩
      · exact .inl ⟨k, hk⟩
      · have hwhole : '\'' ∉ (spelled blank name value).render :=
          apostrophe_not_mem_spelled hplain hblank
        obtain ⟨k', rfl, rfl⟩ := split_before hwhole hcut
        refine .inr ⟨trivial, front' ++ (old ++ k'), ?_, by simp⟩
        intro hmem
        have hinner : '\'' ∉ front' ++ ((spelled blank name value).render ++ k') := hholds
        simp only [List.mem_append] at hmem hinner
        tauto

theorem dropWhile_isBlank_spelled (back : Text) :
    ((spelled blank name value).render ++ back).dropWhile Text.isBlank =
      name ++ '=' :: '"' :: (value ++ '"' :: back) := by
  rw [(hplain.spelled_sound hblank).dropWhile_isBlank]
  simp [spelled, Assignment.render]

/-- Right behind an equals sign the attribute's name would be a bare value, which the quote that
follows does not end. -/
theorem not_cut_before_value {quoting : Quoting} {blanks inner : Text}
    (hblanks : ∀ c ∈ blanks, Text.isBlank c = true) (hholds : quoting.Holds inner)
    (hstops : quoting.Stops rest) (hrest : Follows rest) :
    (spelled blank name value).render ++ back ≠ blanks ++ (quoting.enclose inner ++ rest) := by
  intro heq
  have hdrop := congrArg (List.dropWhile Text.isBlank) heq
  rw [dropWhile_isBlank_spelled hplain hblank,
    Text.dropWhile_append_stop hblanks (isBlank_head?_enclose hholds rest)] at hdrop
  have hbare : Quoting.bare.Holds (name ++ ['=']) := by
    refine ⟨by simp, ?_⟩
    intro c hc
    rcases List.mem_append.mp hc with hc | hc
    · exact isBareChar_of_isNameChar (hplain.name c hc).1
    · obtain rfl : c = '=' := by simpa using hc
      decide
  have hquote : Quoting.bare.Stops ('"' :: (value ++ '"' :: back)) := by
    intro _ c hc
    obtain rfl : '"' = c := by simpa using hc
    decide
  have hread := value?_enclose hbare hquote
  have hsame : Quoting.bare.enclose (name ++ ['=']) ++ '"' :: (value ++ '"' :: back) =
      quoting.enclose inner ++ rest := by
    simpa [Quoting.enclose] using hdrop
  rw [hsame, value?_enclose hholds hstops] at hread
  simp only [Option.some.injEq, Prod.mk.injEq] at hread
  have hhead := hrest '"' (by simp [hread.2.2])
  exact absurd hhead (by decide)

theorem cut_assignment (hold : '\'' ∉ old) {a : Assignment} (ha : a.Sound)
    (hink : EndsInk front) (hstops : a.quoting.Stops rest) (hrest : Follows rest)
    (heq : front ++ ((spelled blank name value).render ++ back) = a.render ++ rest) :
    (∃ k, front = a.render ++ k) ∨
      ∃ a' : Assignment, a'.Sound ∧ a'.quoting = .single ∧
        front ++ (old ++ back) = a'.render ++ rest := by
  simp only [Assignment.render_eq, List.append_assoc, List.cons_append] at heq ⊢
  by_cases hne : front = []
  · subst hne
    obtain ⟨c, cs, hname, hc⟩ := hplain.exists_name_eq
    have hdrop := congrArg (List.dropWhile Text.isBlank) heq
    rw [List.nil_append, dropWhile_isBlank_spelled hplain hblank,
      Text.dropWhile_append_stop ha.before (by simp; decide), hname] at hdrop
    exact absurd (List.cons.inj hdrop).1 (isNameChar_iff.mp hc).2.2.2.2.2
  · obtain ⟨front₁, rfl, hne₁, heq₁⟩ := hink.peel_blanks hne ha.before heq
    cases front₁ with
    | nil => exact absurd rfl hne₁
    | cons c front₂ =>
        obtain ⟨rfl, heq₂⟩ := List.cons.inj heq₁
        have hink₂ : EndsInk (['='] ++ front₂) := hink.of_append
        by_cases hne₂ : front₂ = []
        · subst hne₂
          exact absurd heq₂ (not_cut_before_value hplain hblank ha.after ha.value hstops hrest)
        · obtain ⟨front₃, rfl, hne₃, heq₃⟩ := hink₂.of_append.peel_blanks hne₂ ha.after heq₂
          rcases cut_value hplain hblank hold ha.value hne₃ hrest heq₃ with
            ⟨k, rfl⟩ | ⟨hquoting, inner, hinner, hvalue⟩
          · exact .inl ⟨k, by simp⟩
          · refine .inr ⟨{ a with value := inner }, ⟨ha.before, ha.after, ?_⟩, hquoting, ?_⟩
            · rw [hquoting]
              exact hinner
            · simp [hvalue]

theorem cut_written (hold : '\'' ∉ old) {w : Written} (hw : w.Sound) (hne : front ≠ [])
    (hink : EndsInk front) (hstops : w.Stops rest) (hrest : Follows rest)
    (heq : front ++ ((spelled blank name value).render ++ back) = w.render ++ rest) :
    (∃ k, front = w.render ++ k) ∨
      ∃ w' : Written, w'.Sound ∧ (∀ tail, w'.Stops tail) ∧
        front ++ (old ++ back) = w'.render ++ rest := by
  have hparts : ∀ (v : Written) (tail : Text), v.render ++ tail =
      v.blanks ++ (v.name ++ ((v.assignment.map Assignment.render).getD [] ++ tail)) := by
    simp [Written.render]
  rw [hparts w] at heq
  obtain ⟨front₁, rfl, _, heq₁⟩ := hink.peel_blanks hne hw.blanks heq
  obtain ⟨front₂, rfl, heq₂⟩ := peel_ink (fun c hc => (isNameChar_iff.mp (hw.name c hc)).1) hblank
    (spelled_head? _ _ _ _) heq₁
  cases hassign : w.assignment with
  | none => exact .inl ⟨front₂, by simp [hparts, hassign]⟩
  | some a =>
      simp only [hassign, Option.map_some, Option.getD_some] at heq₂
      rcases cut_assignment hplain hblank hold (hw.assignment a hassign) hink.of_append.of_append
        (hstops.value a hassign) hrest heq₂ with ⟨k, rfl⟩ | ⟨a', ha', hquoting, hvalue⟩
      · exact .inl ⟨k, by simp [hparts, hassign]⟩
      · refine .inr ⟨{ w with assignment := some a' }, ?_, ?_, by simp [hparts, hvalue]⟩
        · exact ⟨hw.blanks_ne, hw.blanks, hw.name_ne, hw.name, by simpa using ha'⟩
        · intro tail
          refine ⟨by simp, by simp, ?_⟩
          rintro b hb hbare
          obtain rfl : a' = b := by simpa using hb
          rw [hquoting] at hbare
          cases hbare

/-- A list of attributes ends before the attribute, or one with the old attributes in its place
stands there. -/
theorem cut_attributes {olds : List Written} (holds : ∀ w ∈ olds, w.Sound)
    (hback : ∀ w ∈ olds.getLast?, w.Stops back) (hold : '\'' ∉ olds.flatMap Written.render)
    {ws : List Written} (hws : ∀ w ∈ ws, w.Sound)
    (hlast : ∀ w ∈ ws.getLast?, w.Stops rest) (hink : EndsInk front) (hrest : Follows rest)
    (heq : front ++ ((spelled blank name value).render ++ back) =
      ws.flatMap Written.render ++ rest) :
    (∃ k, front = ws.flatMap Written.render ++ k) ∨
      ∃ ws' : List Written, (∀ w ∈ ws', w.Sound) ∧
        front ++ (olds.flatMap Written.render ++ back) = ws'.flatMap Written.render ++ rest ∧
        (back = rest ∧ olds = [] ∨ ∃ w ∈ ws'.getLast?, w.Stops rest) := by
  induction ws generalizing front with
  | nil => exact .inl ⟨front, rfl⟩
  | cons w ws ih =>
      have hsound : ∀ v ∈ ws, v.Sound := fun v hv => hws v (by simp [hv])
      have htail : ∀ v ∈ ws.getLast?, v.Stops rest := by
        cases ws with
        | nil => simp
        | cons v vs => simpa using hlast
      have hstops : w.Stops (ws.flatMap Written.render ++ rest) := stops_flatMap hsound hlast
      have hfollows := follows_flatMap hsound hrest
      rw [List.flatMap_cons, List.append_assoc] at heq
      by_cases hne : front = []
      · -- The attribute at this place is the new one.
        subst hne
        have hread := written?_render (hplain.spelled_sound hblank)
          (spelled_stops blank name value back)
        rw [List.nil_append] at heq
        rw [heq, written?_render (hws w (by simp)) hstops] at hread
        simp only [Option.some.injEq, Prod.mk.injEq] at hread
        refine .inr ⟨olds ++ ws, ?_, by simp [hread.2], ?_⟩
        · exact List.forall_mem_append.mpr ⟨holds, hsound⟩
        · cases hws₀ : ws.getLast? with
          | some v => exact .inr ⟨v, by simp [List.getLast?_append, hws₀], htail v hws₀⟩
          | none =>
              rw [List.getLast?_eq_none_iff.mp hws₀] at hread ⊢
              obtain rfl : rest = back := by simpa using hread.2
              cases holds₀ : olds.getLast? with
              | none => exact .inl ⟨rfl, List.getLast?_eq_none_iff.mp holds₀⟩
              | some v => exact .inr ⟨v, by simpa using holds₀, hback v holds₀⟩
      · rcases cut_written hplain hblank hold (hws w (by simp)) hne hink hstops hfollows heq with
          ⟨front₁, rfl⟩ | ⟨w', hw', hstops', hfront⟩
        · rw [List.append_assoc, List.append_cancel_left_eq] at heq
          rcases ih hsound htail hink.of_append heq with ⟨k, rfl⟩ | ⟨ws', hws', hfront, hend⟩
          · exact .inl ⟨k, by simp⟩
          · refine .inr ⟨w :: ws', by simpa using ⟨hws w (by simp), hws'⟩, by simp [hfront], ?_⟩
            rcases hend with hend | ⟨v, hv, hvstops⟩
            · exact .inl hend
            · refine .inr ⟨v, ?_, hvstops⟩
              rw [Option.mem_def] at hv ⊢
              rw [List.getLast?_cons, hv]
              rfl
        · refine .inr ⟨w' :: ws, by simpa using ⟨hw', hsound⟩, by simp [hfront], .inr ?_⟩
          cases hws₀ : ws.getLast? with
          | none => exact ⟨w', by simp [List.getLast?_cons, hws₀], hstops' rest⟩
          | some v => exact ⟨v, by simp [List.getLast?_cons, hws₀], htail v hws₀⟩

/-- The end of a tag lies before the attribute. -/
theorem OpenTag.cut_closing {t : OpenTag} (ht : t.Sound) (hink : EndsInk front) {after : Text}
    (heq : front ++ ((spelled blank name value).render ++ back) = t.closing ++ after) :
    ∃ k, front = t.closing ++ k := by
  by_cases hne : front = []
  · subst hne
    obtain ⟨mark, tail, hclosing, hmark, _⟩ := t.closing_cases
    obtain ⟨c, cs, hname, hc⟩ := hplain.exists_name_eq
    have hdrop := congrArg (List.dropWhile Text.isBlank) heq
    rw [List.nil_append, dropWhile_isBlank_spelled hplain hblank, hclosing, List.append_assoc,
      List.cons_append, Text.dropWhile_append_stop ht.blanks (isBlank_head?_mark hmark _),
      hname] at hdrop
    obtain rfl := (List.cons.inj hdrop).1
    rcases hmark with rfl | rfl <;> exact absurd hc (by decide)
  · have hmarks : ∀ c ∈ (if t.selfClosing then ['/', '>'] else ['>']),
        Text.isBlank c = false := by
      cases t.selfClosing with
      | true =>
          exact List.forall_mem_cons.mpr
            ⟨by decide, List.forall_mem_singleton.mpr (by decide)⟩
      | false => exact List.forall_mem_singleton.mpr (by decide)
    rw [OpenTag.closing, List.append_assoc] at heq
    obtain ⟨front₁, rfl, _, heq₁⟩ := hink.peel_blanks hne ht.blanks heq
    obtain ⟨k, rfl, _⟩ := peel_ink hmarks hblank (spelled_head? _ _ _ _) heq₁
    exact ⟨k, by simp [OpenTag.closing]⟩

/-- Where no tag is read, none is read after an attribute has taken the place of old ones. -/
theorem openTag?_replace_eq_none {olds : List Written} (holds : ∀ w ∈ olds, w.Sound)
    (hlast : ∀ w ∈ olds.getLast?, w.Stops back) (hold : '\'' ∉ olds.flatMap Written.render)
    (hink : EndsInk front) (hback : ∀ c ∈ back.head?, Text.isBlank c = true ∨ c = '>')
    (h : openTag? (front ++ (olds.flatMap Written.render ++ back)) = none) :
    openTag? (front ++ ((spelled blank name value).render ++ back)) = none := by
  by_contra hsome
  obtain ⟨⟨t, after⟩, hread⟩ := Option.ne_none_iff_exists'.mp hsome
  obtain ⟨ht, heq⟩ := openTag?_sound hread
  suffices hold : ∃ t' : OpenTag, t'.Sound ∧ ∃ after',
      front ++ (olds.flatMap Written.render ++ back) = t'.render ++ after' by
    obtain ⟨t', ht', after', hfront⟩ := hold
    rw [hfront, openTag?_render ht'] at h
    exact absurd h (by simp)
  have hhead := spelled_head? blank name value back
  have hparts : front ++ ((spelled blank name value).render ++ back) =
      ('<' :: t.name) ++ (t.attributeText ++ (t.closing ++ after)) := by
    rw [heq, OpenTag.render_eq]
    simp
  obtain ⟨front₁, rfl, heq₁⟩ := peel_ink ht.name_ink hblank hhead hparts
  rcases cut_attributes hplain hblank holds hlast hold ht.attributes (ht.stops_closing after)
    hink.of_append (OpenTag.follows_closing ht after) heq₁ with
    ⟨front₂, rfl⟩ | ⟨ws', hws', hfront, hend⟩
  · rw [OpenTag.attributeText, List.append_assoc, List.append_cancel_left_eq] at heq₁
    obtain ⟨k, rfl⟩ := OpenTag.cut_closing hplain hblank ht hink.of_append.of_append heq₁
    refine ⟨t, ht, k ++ (olds.flatMap Written.render ++ back), ?_⟩
    simp [OpenTag.render_eq, OpenTag.attributeText]
  · refine ⟨{ t with attributes := ws' }, ⟨ht.name, hws', ht.blanks, ?_⟩, after, ?_⟩
    · intro hself hblanks w hw a ha hbare
      have hslash : (t.closing ++ after).head? = some '/' := by
        dsimp only at hself hblanks
        simp [OpenTag.closing, hself, hblanks]
      rcases hend with ⟨hend, _⟩ | ⟨v, hv, hstops⟩
      · rw [← hend] at hslash
        rcases hback '/' hslash with hblank | hgreater
        · exact absurd hblank (by decide)
        · exact absurd hgreater (by decide)
      · obtain rfl : v = w := Option.some.inj (hv.symm.trans hw)
        exact absurd (hstops.value a ha hbare '/' hslash) (by decide)
    · rw [List.append_assoc, hfront]
      simp [OpenTag.render_eq, OpenTag.attributeText, OpenTag.closing]

end Cut

/-- Where no tag is read, none is read after an attribute is inserted. -/
theorem openTag?_insert_eq_none {name value front back : Text} (hplain : Plain name value)
    (hink : EndsInk front) (hback : ∀ c ∈ back.head?, Text.isBlank c = true ∨ c = '>')
    (h : openTag? (front ++ back) = none) :
    openTag? (front ++ ((added name value).render ++ back)) = none := by
  have hnone : openTag? (front ++ ([].flatMap Written.render ++ back)) = none := h
  exact openTag?_replace_eq_none hplain (by decide) (by simp) (by simp) (by simp) hink hback hnone

end MarkupIds.Sfc
