import MarkupIds.Edit
import MarkupIds.Proofs.Sfc.Insertion
import MarkupIds.Proofs.Sfc.Layout

/-!
# Growth of layouts

A layout grows when some of its tags get one more attribute each. Growth keeps the layout: the
same tags are read, comments stay where they are, and no section marker appears.
-/

namespace MarkupIds.Sfc

/-! ## Ends of texts -/

theorem endsInk_append {front text : Text} (hne : text ≠ []) (h : EndsInk text) :
    EndsInk (front ++ text) := by
  intro c hc
  apply h c
  rwa [List.getLast?_append_of_ne_nil _ hne] at hc

theorem endsInk_of_ink {text : Text} (h : ∀ c ∈ text, Text.isBlank c = false) : EndsInk text :=
  fun c hc => h c (List.mem_of_getLast? hc)

theorem endsInk_concat {front : Text} {c : Char} (h : Text.isBlank c = false) :
    EndsInk (front ++ [c]) :=
  endsInk_append (by simp) (endsInk_of_ink (by simpa using h))

theorem Quoting.Holds.enclose_ink {quoting : Quoting} {value : Text} (h : quoting.Holds value) :
    quoting.enclose value ≠ [] ∧ EndsInk (quoting.enclose value) := by
  cases quoting with
  | double => exact ⟨by simp [Quoting.enclose], endsInk_concat (by decide)⟩
  | single => exact ⟨by simp [Quoting.enclose], endsInk_concat (by decide)⟩
  | bare => exact ⟨h.1, endsInk_of_ink fun c hc => (isBareChar_iff.mp (h.2 c hc)).1⟩

theorem Written.Sound.endsInk {w : Written} (h : w.Sound) : EndsInk w.render := by
  cases hassign : w.assignment with
  | none =>
      have hrender : w.render = w.blanks ++ w.name := by simp [Written.render, hassign]
      rw [hrender]
      exact endsInk_append h.name_ne
        (endsInk_of_ink fun c hc => (isNameChar_iff.mp (h.name c hc)).1)
  | some a =>
      obtain ⟨hne, hink⟩ := (h.assignment a hassign).value.enclose_ink
      have hrender : w.render = (w.blanks ++ w.name ++ a.blanksBefore ++ '=' :: a.blanksAfter) ++
          a.quoting.enclose a.value := by
        simp [Written.render, hassign, Assignment.render_eq]
      rw [hrender]
      exact endsInk_append hne hink

theorem Written.Sound.render_ne_nil {w : Written} (h : w.Sound) : w.render ≠ [] := by
  simp [Written.render, h.blanks_ne]

namespace OpenTag

/-- The tag up to the blanks in front of its end. -/
def opening (t : OpenTag) : Text :=
  '<' :: (t.name ++ t.attributeText)

/-- The tag with one more attribute. -/
def push (t : OpenTag) (w : Written) : OpenTag :=
  { t with attributes := t.attributes ++ [w] }

theorem render_eq_opening (t : OpenTag) : t.render = t.opening ++ t.closing := by
  simp [render_eq, opening]

@[simp] theorem opening_push (t : OpenTag) (w : Written) :
    (t.push w).opening = t.opening ++ w.render := by
  simp [opening, push, attributeText]

@[simp] theorem closing_push (t : OpenTag) (w : Written) : (t.push w).closing = t.closing := rfl

theorem render_push (t : OpenTag) (w : Written) :
    (t.push w).render = t.opening ++ (w.render ++ t.closing) := by
  rw [render_eq_opening, opening_push, closing_push, List.append_assoc]

theorem Sound.push {t : OpenTag} (h : t.Sound) (hopen : t.selfClosing = false) {w : Written}
    (hw : w.Sound) : (t.push w).Sound := by
  refine ⟨h.name, ?_, h.blanks, ?_⟩
  · intro v hv
    rcases List.mem_append.mp hv with hv | hv
    · exact h.attributes v hv
    · obtain rfl : v = w := by simpa using hv
      exact hw
  · intro hself
    have hnot : (t.push w).selfClosing = false := hopen
    rw [hnot] at hself
    exact Bool.noConfusion hself

theorem Sound.endsInk_opening {t : OpenTag} (h : t.Sound) : EndsInk t.opening := by
  rcases List.eq_nil_or_concat t.attributes with hnil | ⟨ws, w, hws⟩
  · have hopening : t.opening = '<' :: t.name := by
      simp [opening, attributeText, hnil]
    rw [hopening]
    exact endsInk_of_ink h.name_ink
  · have hw : w.Sound := h.attributes w (by simp [hws])
    have hopening : t.opening = ('<' :: (t.name ++ ws.flatMap Written.render)) ++ w.render := by
      simp [opening, attributeText, hws]
    rw [hopening]
    exact endsInk_append hw.render_ne_nil hw.endsInk

theorem Sound.closing_head? {t : OpenTag} (h : t.Sound) (hopen : t.selfClosing = false)
    (rest : Text) :
    ∀ c ∈ (t.closing ++ rest).head?, Text.isBlank c = true ∨ c = '>' := by
  intro c hc
  cases hblanks : t.blanks with
  | nil =>
      obtain rfl : '>' = c := by simpa [closing, hblanks, hopen] using hc
      exact .inr rfl
  | cons d ds =>
      obtain rfl : d = c := by simpa [closing, hblanks] using hc
      exact .inl (h.blanks d (by simp [hblanks]))

/-- Where no tag is read, none is read after a tag further on has grown. -/
theorem Sound.push_openTag?_eq_none {t : OpenTag} (h : t.Sound) (hopen : t.selfClosing = false)
    {name value : Text} (hplain : Plain name value) {front rest : Text}
    (hread : openTag? (front ++ (t.render ++ rest)) = none) :
    openTag? (front ++ ((t.push (added name value)).render ++ rest)) = none := by
  have hold : front ++ (t.render ++ rest) = (front ++ t.opening) ++ (t.closing ++ rest) := by
    simp [render_eq_opening]
  have hnew : front ++ ((t.push (added name value)).render ++ rest) =
      (front ++ t.opening) ++ ((added name value).render ++ (t.closing ++ rest)) := by
    simp [render_push]
  rw [hold] at hread
  rw [hnew]
  refine openTag?_insert_eq_none hplain ?_ (h.closing_head? hopen rest) hread
  exact endsInk_append (by simp [opening]) h.endsInk_opening

/-- A tag can stand between comments as it is: no comment opens in it. -/
def Unmarked (t : OpenTag) : Prop :=
  ¬ "<!--".toList <:+: t.render

theorem maskLine_render {t : OpenTag} (h : t.Unmarked) (rest : Text) :
    maskLine false (t.render ++ rest) =
      (t.render ++ (maskLine false rest).1, (maskLine false rest).2) := by
  apply maskLine_append_of_not_infix h
  intro c hc
  obtain ⟨init, hinit⟩ : ∃ init, t.render = init ++ ['>'] := by
    cases hself : t.selfClosing with
    | false => exact ⟨t.opening ++ t.blanks, by simp [render_eq_opening, closing, hself]⟩
    | true => exact ⟨t.opening ++ t.blanks ++ ['/'], by simp [render_eq_opening, closing, hself]⟩
  rw [hinit, List.getLast?_concat] at hc
  obtain rfl := Option.some.inj hc
  decide

/-- The text in front of a tag is masked by itself. -/
theorem maskLine_append_render (inside : Bool) (front : Text) (t : OpenTag) (rest : Text) :
    maskLine inside (front ++ (t.render ++ rest)) =
      ((maskLine inside front).1 ++ (maskLine (maskLine inside front).2 (t.render ++ rest)).1,
        (maskLine (maskLine inside front).2 (t.render ++ rest)).2) := by
  rw [t.render_eq, List.cons_append]
  exact maskLine_append_bracket inside front _

/-- A tag that masking leaves as it is stands outside comments, and none opens in it. -/
theorem unmarked_of_maskLine {t : OpenTag} {inside after : Bool} {front shown rest masked : Text}
    (hlength : front.length = shown.length)
    (h : maskLine inside (front ++ (t.render ++ rest)) =
      (shown ++ (t.render ++ masked), after)) :
    t.Unmarked ∧ maskLine inside front = (shown, false) ∧
      maskLine false rest = (masked, after) := by
  rw [maskLine_append_render, Prod.mk.injEq] at h
  obtain ⟨hmasked, hafter⟩ := h
  obtain ⟨hshown, hrest⟩ := List.append_inj hmasked (by rw [length_maskLine, hlength])
  have hstate : (maskLine inside front).2 = false := by
    by_contra hinside
    rw [Bool.not_eq_false] at hinside
    rw [hinside, t.render_eq, List.cons_append, maskLine_inside (by simp)] at hrest
    exact absurd (List.cons.inj hrest).1 (by decide)
  rw [hstate] at hrest hafter
  have hclear : t.render <+: (maskLine false (t.render ++ rest)).1 := by
    rw [hrest]
    exact List.prefix_append _ _
  have hunmarked : t.Unmarked := not_infix_of_shown hclear
  rw [maskLine_render hunmarked, List.append_cancel_left_eq] at hrest
  rw [maskLine_render hunmarked] at hafter
  exact ⟨hunmarked, Prod.ext hshown hstate, Prod.ext hrest hafter⟩

/-- Masking treats a tag as it treats another one in its place. -/
theorem maskLine_replace {t u : OpenTag} (hu : u.Unmarked) {inside after : Bool}
    {front shown rest masked : Text} (hlength : front.length = shown.length)
    (h : maskLine inside (front ++ (t.render ++ rest)) =
      (shown ++ (t.render ++ masked), after)) :
    maskLine inside (front ++ (u.render ++ rest)) = (shown ++ (u.render ++ masked), after) := by
  obtain ⟨_, hfront, hrest⟩ := unmarked_of_maskLine hlength h
  rw [maskLine_append_render, hfront, maskLine_render hu, hrest]

/-- An attribute without an opening mark brings none into a tag. -/
theorem not_infix_spelled {blank : Char} (hblank : Text.isBlank blank = true)
    {name value front back : Text} (hname : ¬ "<!--".toList <:+: name)
    (hvalue : ¬ "<!--".toList <:+: value) (hfront : ¬ "<!--".toList <:+: front)
    (hback : ¬ "<!--".toList <:+: back) :
    ¬ "<!--".toList <:+: front ++ ((spelled blank name value).render ++ back) := by
  have hbreaks : blank ∉ "<!--".toList := by
    have hink : "<!--".toList.all (!Text.isBlank ·) = true := by decide
    intro hmem
    have hother := List.all_eq_true.mp hink blank hmem
    rw [hblank] at hother
    exact Bool.noConfusion hother
  have hparts : front ++ ((spelled blank name value).render ++ back) =
      front ++ blank :: (name ++ '=' :: ([] ++ '"' :: (value ++ '"' :: back))) := by
    simp [spelled_render]
  rw [hparts]
  intro hmark
  rcases Text.infix_of_infix_append_cons hbreaks hmark with hmark | hmark
  · exact hfront hmark
  · rcases Text.infix_of_infix_append_cons (by decide) hmark with hmark | hmark
    · exact hname hmark
    · rcases Text.infix_of_infix_append_cons (by decide) hmark with hmark | hmark
      · exact absurd hmark (by decide)
      · rcases Text.infix_of_infix_append_cons (by decide) hmark with hmark | hmark
        · exact hvalue hmark
        · exact hback hmark

theorem Unmarked.push {t : OpenTag} (h : t.Unmarked) {name value : Text}
    (hplain : Plain name value) : (t.push (added name value)).Unmarked := by
  have hbracket : ∀ text : Text, '<' ∉ text → ¬ "<!--".toList <:+: text :=
    fun text hmem hmark => hmem (hmark.subset (by decide))
  rw [Unmarked, render_eq_opening] at h
  rw [Unmarked, render_push]
  refine not_infix_spelled (by decide) (hbracket _ fun hmem => (hplain.name _ hmem).2 rfl)
    (hbracket _ fun hmem => (hplain.value _ hmem).2 rfl) ?_ ?_
  · exact fun hmark => h (hmark.trans (List.prefix_append _ _).isInfix)
  · exact fun hmark => h (hmark.trans (List.suffix_append _ _).isInfix)

end OpenTag

/-! ## Growth of a line -/

/-- An edit that adds a new attribute to this tag. -/
structure Fits (line offset column : ℕ) (t : OpenTag) (after : Text) (e : Edit) : Prop where
  kind : e.kind = .add
  element : e.element = tagElement line offset column t after
  position : e.position = ⟨line, column + 1, offset + column⟩
  full : isFullName e.name = true
  plain : Plain e.name e.value
  missing : ∀ w ∈ t.attributes, w.name ≠ e.name
  unclosed : t.selfClosing = false

/-- A layout from column `n` on grows by edits that each add to one of its tags, in order. -/
inductive Grows (line offset : ℕ) : ℕ → List Piece → List Edit → List Piece → Prop where
  | nil (n) : Grows line offset n [] [] []
  | char {n c d ps es qs} : Grows line offset (n + 1) ps es qs →
      Grows line offset n (.char c d :: ps) es (.char c d :: qs)
  | keep {n t ps es qs} : Grows line offset (n + t.render.length) ps es qs →
      Grows line offset n (.tag t :: ps) es (.tag t :: qs)
  | push {n t ps e es qs} : Fits line offset n t (shownText ps) e →
      Grows line offset (n + t.render.length) ps es qs →
      Grows line offset n (.tag t :: ps) (e :: es) (.tag (t.push (added e.name e.value)) :: qs)

section Line

variable {line offset n : ℕ} {ps qs : List Piece} {es : List Edit}

theorem Grows.openTag?_eq_none (h : Grows line offset n ps es qs) (hps : Reads ps)
    (front : Text) (hread : openTag? (front ++ shownText ps) = none) :
    openTag? (front ++ shownText qs) = none := by
  induction h generalizing front with
  | nil n => exact hread
  | @char n c d ps es qs _ ih =>
      rw [shownText_char, List.append_cons] at hread ⊢
      exact ih hps.2 _ hread
  | @keep n t ps es qs _ ih =>
      rw [shownText_tag, ← List.append_assoc] at hread ⊢
      exact ih hps.2.2 _ hread
  | @push n t ps e es qs hfits _ ih =>
      rw [shownText_tag, ← List.append_assoc] at hread
      have hlater := ih hps.2.2 _ hread
      rw [List.append_assoc] at hlater
      exact hps.1.push_openTag?_eq_none hfits.unclosed hfits.plain hlater

/-- What is read on a layout is what is read on it after it has grown. -/
theorem Grows.reads (h : Grows line offset n ps es qs) (hps : Reads ps) : Reads qs := by
  induction h with
  | nil n => trivial
  | @char n c d ps es qs hgrows ih =>
      exact ⟨hgrows.openTag?_eq_none hps.2 [d] hps.1, ih hps.2⟩
  | keep _ ih => exact ⟨hps.1, hps.2.1, ih hps.2.2⟩
  | @push n t ps e es qs hfits _ ih =>
      refine ⟨hps.1.push hfits.unclosed hfits.plain.sound, ?_, ih hps.2.2⟩
      intro w hw
      rcases List.mem_append.mp hw with hw | hw
      · exact hps.2.1 w hw
      · obtain rfl : w = added e.name e.value := by simpa using hw
        exact hfits.full

theorem Grows.maskLine_eq (h : Grows line offset n ps es qs) {inside after : Bool}
    {front shown : Text} (hlength : front.length = shown.length)
    (hmask : maskLine inside (front ++ rawText ps) = (shown ++ shownText ps, after)) :
    maskLine inside (front ++ rawText qs) = (shown ++ shownText qs, after) := by
  induction h generalizing front shown with
  | nil n => exact hmask
  | @char n c d ps es qs _ ih =>
      rw [rawText_char, shownText_char, List.append_cons front, List.append_cons shown] at hmask ⊢
      exact ih (by simpa using hlength) hmask
  | @keep n t ps es qs _ ih =>
      rw [rawText_tag, shownText_tag, ← List.append_assoc, ← List.append_assoc] at hmask ⊢
      exact ih (by simpa using hlength) hmask
  | @push n t ps e es qs hfits _ ih =>
      rw [rawText_tag, shownText_tag, ← List.append_assoc, ← List.append_assoc] at hmask
      have hlater := ih (by simpa using hlength) hmask
      rw [List.append_assoc, List.append_assoc] at hlater
      have hunmarked := (OpenTag.unmarked_of_maskLine hlength hlater).1
      exact OpenTag.maskLine_replace (hunmarked.push hfits.plain) hlength hlater

/-! ## Scans that stop at tags -/

/-- A function that looks no further than the first letter of a tag. -/
def StopsAtTags {β : Type} (f : Text → β) : Prop :=
  ∀ front c rest rest', Text.isAsciiLetter c = true →
    f (front ++ '<' :: c :: rest) = f (front ++ '<' :: c :: rest')

theorem ne_slash_of_isAsciiLetter {c : Char} (h : Text.isAsciiLetter c = true) : c ≠ '/' := by
  rintro rfl
  exact absurd h (by decide)

theorem enclosed?_stopsAtTags {name : Text} (hname : '<' ∉ name) :
    StopsAtTags (enclosed? name) := by
  intro front c rest rest' hletter
  have hslash := ne_slash_of_isAsciiLetter hletter
  by_cases hmem : '<' ∈ front
  · -- The closing tag would have to begin at a bracket of `front` and cannot go past the next.
    obtain ⟨before, behind, rfl, hbefore⟩ := List.eq_append_cons_of_mem hmem
    have hrun := Text.bne_of_not_mem hbefore
    have htake : ∀ tail : Text, (before ++ '<' :: tail).takeWhile (· != '<') = before :=
      fun tail => Text.takeWhile_append_stop hrun (by simp)
    have hdrop : ∀ tail : Text, (before ++ '<' :: tail).dropWhile (· != '<') = '<' :: tail :=
      fun tail => Text.dropWhile_append_stop hrun (by simp)
    have hpast : ∀ tail : Text, Text.after? ('<' :: '/' :: name) ('<' :: (behind ++ '<' :: tail)) =
        (Text.after? ('/' :: name) behind).map (· ++ '<' :: tail) := by
      intro tail
      rw [Text.after?, if_pos (by simp)]
      exact Text.after?_append_cons (by simp [hname]) behind tail
    simp only [enclosed?, List.append_assoc, List.cons_append, htake, hdrop, hpast]
    cases Text.after? ('/' :: name) behind with
    | none => rfl
    | some found =>
        simp only [Option.map_some,
          Text.dropWhile_append_cons (by decide : Text.isBlank '<' = false)]
        cases found.dropWhile Text.isBlank <;> rfl
  · have hrun := Text.bne_of_not_mem hmem
    have hdrop : ∀ tail : Text, (front ++ '<' :: tail).dropWhile (· != '<') = '<' :: tail :=
      fun tail => Text.dropWhile_append_stop hrun (by simp)
    simp [enclosed?, hdrop, Text.after?, Ne.symm hslash]

theorem content?_stopsAtTags {name : Text} (hname : '<' ∉ name) :
    StopsAtTags (content? name) := by
  intro front c rest rest' hletter
  rw [content?, content?, enclosed?_stopsAtTags hname front c rest rest' hletter]

theorem cutWord?_append_bracket {word : Text} (hword : '<' ∉ word) (front rest : Text) :
    cutWord? word (front ++ '<' :: rest) =
      (cutWord? word front).map fun (head, tail) => (head, tail ++ '<' :: rest) := by
  induction word generalizing front with
  | nil => rfl
  | cons w word ih =>
      simp only [List.mem_cons, not_or] at hword
      cases front with
      | nil =>
          have hlower : Text.lowerChar '<' = ['<'] := by decide
          have hletter : sameLetter w '<' = false := by
            simp [sameLetter, hlower, hword.1]
          simp [cutWord?, hletter]
      | cons d front =>
          simp only [List.cons_append, cutWord?]
          split
          · rw [ih hword.2 front]
            cases cutWord? word front <;> rfl
          · rfl

theorem cutSectionName?_append_bracket (front rest : Text) :
    cutSectionName? (front ++ '<' :: rest) =
      (cutSectionName? front).map fun (head, tail) => (head, tail ++ '<' :: rest) := by
  simp only [cutSectionName?, List.findSome?_cons, List.findSome?_nil,
    cutWord?_append_bracket (by decide : '<' ∉ "template".toList),
    cutWord?_append_bracket (by decide : '<' ∉ "script".toList),
    cutWord?_append_bracket (by decide : '<' ∉ "style".toList)]
  cases cutWord? "template".toList front <;> cases cutWord? "script".toList front <;>
    cases cutWord? "style".toList front <;> rfl

theorem closes?_eq_none {line : Text}
    (h : ∀ rest, line.dropWhile Text.isBlank ≠ '<' :: '/' :: rest) : closes? line = none := by
  unfold closes?
  split
  · rename_i rest heq
    exact absurd heq (h rest)
  · rfl

theorem closes?_stopsAtTags : StopsAtTags closes? := by
  intro front c rest rest' hletter
  have hslash := ne_slash_of_isAsciiLetter hletter
  have hdrop := Text.dropWhile_append_cons (by decide : Text.isBlank '<' = false)
  by_cases hmark : ∃ behind, front.dropWhile Text.isBlank = '<' :: '/' :: behind
  · obtain ⟨behind, hbehind⟩ := hmark
    simp only [closes?, hdrop, hbehind, List.cons_append, cutSectionName?_append_bracket]
    cases cutSectionName? behind with
    | none => rfl
    | some found =>
        simp only [Option.map_some, hdrop]
        cases found.2.dropWhile Text.isBlank <;> rfl
  · have hnone : ∀ tail, closes? (front ++ '<' :: c :: tail) = none := by
      intro tail
      apply closes?_eq_none
      intro after hafter
      rw [hdrop] at hafter
      rcases hfront : front.dropWhile Text.isBlank with _ | ⟨d, _ | ⟨e, behind⟩⟩
      · simp [hfront, hslash] at hafter
      · simp [hfront] at hafter
      · simp only [hfront, List.cons_append, List.cons.injEq] at hafter
        obtain ⟨rfl, rfl, _⟩ := hafter
        exact hmark ⟨behind, hfront⟩
    rw [hnone, hnone]

theorem Grows.eq_of_stopsAtTags (h : Grows line offset n ps es qs) (hps : Reads ps) {β : Type}
    {f : Text → β} (hf : StopsAtTags f) {g : Piece → Text} (hg : ∀ t, g (.tag t) = t.render)
    (front : Text) : f (front ++ qs.flatMap g) = f (front ++ ps.flatMap g) := by
  induction h generalizing front with
  | nil n => rfl
  | @char n c d ps es qs _ ih =>
      rw [List.flatMap_cons, List.flatMap_cons, ← List.append_assoc, ← List.append_assoc]
      exact ih hps.2 _
  | @keep n t ps es qs _ ih =>
      rw [List.flatMap_cons, List.flatMap_cons, ← List.append_assoc, ← List.append_assoc]
      exact ih hps.2.2 _
  | @push n t ps e es qs hfits _ ih =>
      obtain ⟨c, cs, hname, hletter, _⟩ := hps.1.name
      have hstart : ∀ w, ∃ tail, (t.push w).render = '<' :: c :: tail := by
        intro w
        refine ⟨cs ++ ((t.push w).attributeText ++ t.closing), ?_⟩
        rw [OpenTag.render_eq, OpenTag.closing_push]
        simp [OpenTag.push, hname]
      have hold : t.render = '<' :: c :: (cs ++ (t.attributeText ++ t.closing)) := by
        rw [OpenTag.render_eq, hname]
        rfl
      obtain ⟨tail, htail⟩ := hstart (added e.name e.value)
      rw [List.flatMap_cons, hg, htail]
      calc f (front ++ ('<' :: c :: tail ++ qs.flatMap g))
          = f (front ++ (t.render ++ qs.flatMap g)) := by
            rw [hold]
            exact hf front c _ _ hletter
        _ = f (front ++ (Piece.tag t :: ps).flatMap g) := by
            rw [List.flatMap_cons, hg, ← List.append_assoc, ← List.append_assoc]
            exact ih hps.2.2 _

theorem Grows.closes?_eq (h : Grows line offset n ps es qs) (hps : Reads ps) :
    closes? (rawText qs) = closes? (rawText ps) :=
  h.eq_of_stopsAtTags hps closes?_stopsAtTags (fun _ => rfl) []

theorem Grows.content?_eq (h : Grows line offset n ps es qs) (hps : Reads ps) {name : Text}
    (hname : '<' ∉ name) : content? name (shownText qs) = content? name (shownText ps) :=
  h.eq_of_stopsAtTags hps (content?_stopsAtTags hname) (fun _ => rfl) []

end Line

/-! ## Elements -/

/-- The second element is the first one, apart from its attributes and its place on the line. -/
structure SameTag (e e' : Element) : Prop where
  tag : e'.tag = e.tag
  content : e'.content = e.content
  framework : e'.framework = e.framework
  line : e'.position.map (·.line) = e.position.map (·.line)

/-- Elements before and after some edits, all in order: an edited element has one more attribute,
the others have the attributes they had. -/
inductive Amended : List Element → List Edit → List Element → Prop where
  | nil : Amended [] [] []
  | kept {e e' es ts es'} : SameTag e e' → e'.attributes = e.attributes → Amended es ts es' →
      Amended (e :: es) ts (e' :: es')
  | changed {e e' t es ts es'} : SameTag e e' → t.element = e →
      e'.attributes = e.attributes ++ [(t.name, t.value)] → Amended es ts es' →
      Amended (e :: es) (t :: ts) (e' :: es')

theorem Amended.append {es fs : List Element} {ts us : List Edit} {es' fs' : List Element}
    (h : Amended es ts es') (hrest : Amended fs us fs') :
    Amended (es ++ fs) (ts ++ us) (es' ++ fs') := by
  induction h with
  | nil => exact hrest
  | kept hsame hattrs _ ih => exact .kept hsame hattrs ih
  | changed hsame helement hattrs _ ih => exact .changed hsame helement hattrs ih

theorem OpenTag.Sound.bracket_not_mem_name {t : OpenTag} (h : t.Sound) : '<' ∉ t.name := by
  obtain ⟨c, cs, hname, hletter, htag⟩ := h.name
  rw [hname]
  intro hmem
  rcases List.mem_cons.mp hmem with rfl | hmem
  · exact absurd hletter (by decide)
  · exact absurd (htag _ hmem) (by decide)

/-- A new attribute is read behind those that were there. -/
theorem readAttributes_push {t : OpenTag} (ht : t.Sound)
    (hnames : ∀ w ∈ t.attributes, isFullName w.name = true) {name value : Text}
    (hname : isFullName name = true) (hplain : Plain name value)
    (hmissing : ∀ w ∈ t.attributes, w.name ≠ name) :
    readAttributes (t.push (added name value)).attributeText =
      readAttributes t.attributeText ++ [(name, value)] := by
  have hhas : Attributes.has (readAttributes t.attributeText) name = false := by
    rw [OpenTag.attributeText, has_readAttributes ht.attributes hnames]
    simpa using hmissing
  have hsound : ∀ w ∈ t.attributes ++ [added name value], w.Sound := by
    simpa [or_imp, forall_and] using ⟨ht.attributes, hplain.sound⟩
  have hfull : ∀ w ∈ t.attributes ++ [added name value], isFullName w.name = true := by
    simpa [or_imp, forall_and] using ⟨hnames, hname⟩
  rw [← Attributes.set_of_not_has hhas value, OpenTag.attributeText, OpenTag.attributeText,
    OpenTag.push, readAttributes_flatMap hsound hfull,
    readAttributes_flatMap ht.attributes hnames, List.foldl_append]
  rfl

theorem Grows.amended {line offset n : ℕ} {ps qs : List Piece} {es : List Edit}
    (h : Grows line offset n ps es qs) (hps : Reads ps) (offset' n' : ℕ) :
    Amended (elementsOf line offset n ps) es (elementsOf line offset' n' qs) := by
  induction h generalizing n' with
  | nil n => exact .nil
  | char _ ih => exact ih hps.2 _
  | @keep n t ps es qs hgrows ih =>
      rw [elementsOf, elementsOf]
      cases hself : t.selfClosing with
      | true => simpa using ih hps.2.2 _
      | false =>
          have hcontent := hgrows.content?_eq hps.2.2 hps.1.bracket_not_mem_name
          exact .kept ⟨rfl, hcontent, rfl, rfl⟩ rfl (ih hps.2.2 _)
  | @push n t ps e es qs hfits hgrows ih =>
      have hcontent := hgrows.content?_eq hps.2.2 hps.1.bracket_not_mem_name
      have hattrs := readAttributes_push hps.1 hps.2.1 hfits.full hfits.plain hfits.missing
      have hpushed : (t.push (added e.name e.value)).selfClosing = false := hfits.unclosed
      rw [elementsOf, elementsOf, hfits.unclosed, hpushed]
      exact .changed ⟨rfl, hcontent, rfl, rfl⟩ hfits.element hattrs (ih hps.2.2 _)

/-! ## Growth of a sheet -/

/-- A sheet from a line on grows by the edits of its lines, in order. -/
inductive SheetGrows : ℕ → ℕ → List (List Piece) → List Edit → List (List Piece) → Prop where
  | nil (line offset) : SheetGrows line offset [] [] []
  | cons {line offset ps es qs sheet fs sheet'} : Grows line offset 0 ps es qs →
      SheetGrows (line + 1) (offset + (shownText ps).length + 1) sheet fs sheet' →
      SheetGrows line offset (ps :: sheet) (es ++ fs) (qs :: sheet')

section Sheet

variable {line offset : ℕ} {sheet sheet' : List (List Piece)} {es : List Edit}

theorem SheetGrows.lays (h : SheetGrows line offset sheet es sheet') {inside : Bool}
    (hlays : Lays inside sheet) : Lays inside sheet' := by
  induction h generalizing inside with
  | nil line offset => trivial
  | @cons line offset ps es qs sheet fs sheet' hgrows _ ih =>
      obtain ⟨hreads, hmask, hrest⟩ := hlays
      have hline : maskLine inside ([] ++ rawText qs) =
          ([] ++ shownText qs, (maskLine inside (rawText ps)).2) :=
        hgrows.maskLine_eq rfl (Prod.ext hmask rfl)
      rw [List.nil_append] at hline
      refine ⟨hgrows.reads hreads, by rw [hline]; rfl, ?_⟩
      rw [hline]
      exact ih hrest

theorem SheetGrows.amended (h : SheetGrows line offset sheet es sheet') {inside : Bool}
    (hlays : Lays inside sheet) (offset' : ℕ) :
    Amended (sheetElements line offset sheet) es (sheetElements line offset' sheet') := by
  induction h generalizing inside offset' with
  | nil line offset => exact .nil
  | cons hgrows _ ih =>
      obtain ⟨hreads, _, hrest⟩ := hlays
      exact (hgrows.amended hreads _ _).append (ih hrest _)

theorem SheetGrows.closes?_eq (h : SheetGrows line offset sheet es sheet') {inside : Bool}
    (hlays : Lays inside sheet) :
    (sheet'.map rawText).map closes? = (sheet.map rawText).map closes? := by
  induction h generalizing inside with
  | nil line offset => rfl
  | cons hgrows _ ih =>
      obtain ⟨hreads, _, hrest⟩ := hlays
      simp only [List.map_cons, hgrows.closes?_eq hreads, ih hrest]

end Sheet

end MarkupIds.Sfc
