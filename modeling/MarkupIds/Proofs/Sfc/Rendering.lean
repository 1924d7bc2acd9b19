import MarkupIds.Proofs.Sfc.Character
import MarkupIds.Proofs.Text.Basic
import Mathlib.Data.List.TakeWhile

/-!
# Reading attributes and tags inverts rendering

A sound attribute or tag is one whose parts can be told apart when it is written out. What is read
is sound and stands in the text as it is rendered; what is sound is read back, whatever follows.
-/

namespace MarkupIds.Sfc

/-! ## Values -/

/-- A value in its quotes. -/
def Quoting.enclose : Quoting → Text → Text
  | .double, value => '"' :: value ++ ['"']
  | .single, value => '\'' :: value ++ ['\'']
  | .bare, value => value

/-- The value can stand in these quotes. -/
def Quoting.Holds : Quoting → Text → Prop
  | .double, value => '"' ∉ value
  | .single, value => '\'' ∉ value
  | .bare, value => value ≠ [] ∧ ∀ c ∈ value, isBareChar c = true

/-- Text after a value that does not run on into it. -/
def Quoting.Stops (quoting : Quoting) (rest : Text) : Prop :=
  quoting = .bare → ∀ c ∈ rest.head?, isBareChar c = false

theorem isBareChar_iff {c : Char} :
    isBareChar c = true ↔ Text.isBlank c = false ∧ c ≠ '"' ∧ c ≠ '\'' ∧ c ≠ '>' := by
  simp only [isBareChar, Bool.and_eq_true, Bool.not_eq_true', bne_iff_ne, ne_eq, and_assoc]

theorem isBareChar_of_isNameChar {c : Char} (h : isNameChar c = true) : isBareChar c = true := by
  obtain ⟨hblank, hdouble, hsingle, hend, _, _⟩ := isNameChar_iff.mp h
  exact isBareChar_iff.mpr ⟨hblank, hdouble, hsingle, hend⟩

theorem eq_of_dropWhile_ne {quote : Char} {body rest : Text} {c : Char}
    (h : body.dropWhile (· != quote) = c :: rest) :
    body = body.takeWhile (· != quote) ++ quote :: rest := by
  have hc : c = quote := by
    simpa using Text.head?_dropWhile (p := (· != quote)) body c (by rw [h]; rfl)
  subst hc
  rw [← h, List.takeWhile_append_dropWhile]

theorem not_mem_takeWhile_ne (quote : Char) (body : Text) :
    quote ∉ body.takeWhile (· != quote) := by
  intro h
  simpa using List.mem_takeWhile_imp h

theorem value?_sound {cs value rest : Text} {quoting : Quoting}
    (h : value? cs = some (quoting, value, rest)) :
    cs = quoting.enclose value ++ rest ∧ quoting.Holds value ∧ quoting.Stops rest := by
  unfold value? at h
  dsimp only at h
  split at h
  · split at h
    · simp at h
    · rename_i body _ c after hrest
      simp only [Option.some.injEq, Prod.mk.injEq] at h
      obtain ⟨rfl, rfl, rfl⟩ := h
      refine ⟨?_, not_mem_takeWhile_ne '"' body, by simp [Quoting.Stops]⟩
      simpa [Quoting.enclose] using eq_of_dropWhile_ne hrest
  · split at h
    · simp at h
    · rename_i body _ c after hrest
      simp only [Option.some.injEq, Prod.mk.injEq] at h
      obtain ⟨rfl, rfl, rfl⟩ := h
      refine ⟨?_, not_mem_takeWhile_ne '\'' body, by simp [Quoting.Stops]⟩
      simpa [Quoting.enclose] using eq_of_dropWhile_ne hrest
  · split at h
    · simp at h
    · rename_i hne
      simp only [Option.some.injEq, Prod.mk.injEq] at h
      obtain ⟨rfl, rfl, rfl⟩ := h
      refine ⟨(List.takeWhile_append_dropWhile).symm, ⟨hne, ?_⟩, ?_⟩
      · intro c hc
        exact List.mem_takeWhile_imp hc
      · intro _
        exact Text.head?_dropWhile cs

theorem value?_enclose {quoting : Quoting} {value rest : Text} (hvalue : quoting.Holds value)
    (hrest : quoting.Stops rest) :
    value? (quoting.enclose value ++ rest) = some (quoting, value, rest) := by
  have hquoted : ∀ quote : Char, quote ∉ value →
      (value ++ quote :: rest).takeWhile (· != quote) = value ∧
        (value ++ quote :: rest).dropWhile (· != quote) = quote :: rest := by
    intro quote hquote
    have hrun := Text.bne_of_not_mem hquote
    have hstop : ∀ c ∈ (quote :: rest).head?, (c != quote) = false := by simp
    exact ⟨Text.takeWhile_append_stop hrun hstop, Text.dropWhile_append_stop hrun hstop⟩
  cases quoting with
  | double =>
      obtain ⟨htake, hdrop⟩ := hquoted '"' hvalue
      simp [value?, Quoting.enclose, htake, hdrop]
  | single =>
      obtain ⟨htake, hdrop⟩ := hquoted '\'' hvalue
      simp [value?, Quoting.enclose, htake, hdrop]
  | bare =>
      obtain ⟨hne, hbare⟩ := hvalue
      have htake := Text.takeWhile_append_stop hbare (hrest rfl)
      have hdrop := Text.dropWhile_append_stop hbare (hrest rfl)
      cases value with
      | nil => exact absurd rfl hne
      | cons c value =>
          obtain ⟨_, hdouble, hsingle, _⟩ := isBareChar_iff.mp (hbare c (by simp))
          unfold value?
          dsimp only [Quoting.enclose, List.cons_append] at htake hdrop ⊢
          split
          · rename_i heq
            exact absurd (List.cons.inj heq).1 hdouble
          · rename_i heq
            exact absurd (List.cons.inj heq).1 hsingle
          · rw [htake, hdrop]

/-! ## Assignments -/

/-- The parts of an assignment can be told apart. -/
structure Assignment.Sound (a : Assignment) : Prop where
  before : ∀ c ∈ a.blanksBefore, Text.isBlank c = true
  after : ∀ c ∈ a.blanksAfter, Text.isBlank c = true
  value : a.quoting.Holds a.value

theorem Assignment.render_eq (a : Assignment) :
    a.render = a.blanksBefore ++ '=' :: (a.blanksAfter ++ a.quoting.enclose a.value) := by
  obtain ⟨before, after, quoting, value⟩ := a
  cases quoting <;> simp [Assignment.render, Quoting.enclose]

theorem isBlank_head?_enclose {quoting : Quoting} {value : Text} (h : quoting.Holds value)
    (rest : Text) : ∀ c ∈ (quoting.enclose value ++ rest).head?, Text.isBlank c = false := by
  intro c hc
  cases quoting with
  | double =>
      obtain rfl : '"' = c := by simpa [Quoting.enclose] using hc
      decide
  | single =>
      obtain rfl : '\'' = c := by simpa [Quoting.enclose] using hc
      decide
  | bare =>
      obtain ⟨hne, hbare⟩ := h
      cases value with
      | nil => exact absurd rfl hne
      | cons d value =>
          obtain rfl : d = c := by simpa [Quoting.enclose] using hc
          exact (isBareChar_iff.mp (hbare d (by simp))).1

theorem assignment?_sound {cs rest : Text} {a : Assignment}
    (h : assignment? cs = some (a, rest)) :
    cs = a.render ++ rest ∧ a.Sound ∧ a.quoting.Stops rest := by
  unfold assignment? at h
  split at h
  · rename_i tail hequals
    split at h
    · rename_i quoting value after hvalue
      simp only [Option.some.injEq, Prod.mk.injEq] at h
      obtain ⟨rfl, rfl⟩ := h
      obtain ⟨htail, hholds, hstops⟩ := value?_sound hvalue
      refine ⟨?_, ⟨?_, ?_, hholds⟩, hstops⟩
      · rw [Assignment.render_eq]
        simp only [List.append_assoc, List.cons_append]
        rw [← htail, List.takeWhile_append_dropWhile, ← hequals, List.takeWhile_append_dropWhile]
      · exact fun c hc => List.mem_takeWhile_imp hc
      · exact fun c hc => List.mem_takeWhile_imp hc
    · simp at h
  · simp at h

theorem assignment?_render {a : Assignment} (ha : a.Sound) {rest : Text}
    (hrest : a.quoting.Stops rest) : assignment? (a.render ++ rest) = some (a, rest) := by
  rw [Assignment.render_eq]
  simp only [List.append_assoc, List.cons_append]
  have hequals : ∀ c ∈ ('=' :: (a.blanksAfter ++ (a.quoting.enclose a.value ++ rest))).head?,
      Text.isBlank c = false := by
    intro c hc
    obtain rfl : '=' = c := by simpa using hc
    decide
  have hvalue := isBlank_head?_enclose ha.value rest
  unfold assignment?
  rw [Text.dropWhile_append_stop ha.before hequals, Text.takeWhile_append_stop ha.before hequals]
  simp only [Text.dropWhile_append_stop ha.after hvalue, Text.takeWhile_append_stop ha.after hvalue,
    value?_enclose ha.value hrest]

theorem assignment?_eq_none {cs : Text}
    (h : ∀ c ∈ (cs.dropWhile Text.isBlank).head?, c ≠ '=') : assignment? cs = none := by
  unfold assignment?
  split
  · rename_i rest heq
    exact absurd rfl (h '=' (by rw [heq]; rfl))
  · rfl

/-! ## Attributes -/

/-- The parts of an attribute can be told apart. -/
structure Written.Sound (w : Written) : Prop where
  blanks_ne : w.blanks ≠ []
  blanks : ∀ c ∈ w.blanks, Text.isBlank c = true
  name_ne : w.name ≠ []
  name : ∀ c ∈ w.name, isNameChar c = true
  assignment : ∀ a ∈ w.assignment, a.Sound

/-- Text after an attribute that does not run on into it. -/
structure Written.Stops (w : Written) (rest : Text) : Prop where
  name : w.assignment = none → ∀ c ∈ rest.head?, isNameChar c = false
  assignment : w.assignment = none → assignment? rest = none
  value : ∀ a ∈ w.assignment, a.quoting.Stops rest

theorem isNameChar_eq_false_of_isBlank {c : Char} (h : Text.isBlank c = true) :
    isNameChar c = false := by
  by_contra hname
  rw [Bool.not_eq_false, isNameChar_iff, h] at hname
  exact Bool.noConfusion hname.1

theorem isBareChar_eq_false_of_isBlank {c : Char} (h : Text.isBlank c = true) :
    isBareChar c = false := by
  by_contra hbare
  rw [Bool.not_eq_false, isBareChar_iff, h] at hbare
  exact Bool.noConfusion hbare.1

/-- An assignment ends the name in front of it. -/
theorem Assignment.Sound.isNameChar_head? {a : Assignment} (ha : a.Sound) (rest : Text) :
    ∀ c ∈ (a.render ++ rest).head?, isNameChar c = false := by
  intro c hc
  simp only [Assignment.render_eq, List.append_assoc, List.cons_append] at hc
  cases hbefore : a.blanksBefore with
  | nil =>
      obtain rfl : '=' = c := by simpa [hbefore] using hc
      decide
  | cons d ds =>
      obtain rfl : d = c := by simpa [hbefore] using hc
      exact isNameChar_eq_false_of_isBlank (ha.before d (by simp [hbefore]))

theorem written?_sound {cs rest : Text} {w : Written} (h : written? cs = some (w, rest)) :
    cs = w.render ++ rest ∧ w.Sound ∧ w.Stops rest := by
  unfold written? at h
  split at h
  · simp at h
  · rename_i hblanks
    dsimp only at h
    split at h
    · simp at h
    · rename_i hname
      have hblank : ∀ c ∈ cs.takeWhile Text.isBlank, Text.isBlank c = true :=
        fun c hc => List.mem_takeWhile_imp hc
      have hchars : ∀ c ∈ (cs.dropWhile Text.isBlank).takeWhile isNameChar,
          isNameChar c = true := fun c hc => List.mem_takeWhile_imp hc
      have hcs : cs = cs.takeWhile Text.isBlank ++
          ((cs.dropWhile Text.isBlank).takeWhile isNameChar ++
            (cs.dropWhile Text.isBlank).dropWhile isNameChar) := by
        rw [List.takeWhile_append_dropWhile, List.takeWhile_append_dropWhile]
      split at h
      · rename_i a after hassign
        simp only [Option.some.injEq, Prod.mk.injEq] at h
        obtain ⟨rfl, rfl⟩ := h
        obtain ⟨hrest, hsound, hstops⟩ := assignment?_sound hassign
        refine ⟨?_, ⟨hblanks, hblank, hname, hchars, by simpa using hsound⟩,
          ⟨by simp, by simp, by simpa using hstops⟩⟩
        rw [hrest] at hcs
        simpa [Written.render] using hcs
      · rename_i hassign
        simp only [Option.some.injEq, Prod.mk.injEq] at h
        obtain ⟨rfl, rfl⟩ := h
        refine ⟨by simp [Written.render], ⟨hblanks, hblank, hname, hchars, by simp⟩,
          ⟨?_, fun _ => hassign, by simp⟩⟩
        exact fun _ => Text.head?_dropWhile _

theorem Written.Sound.isBlank_head? {w : Written} (h : w.Sound) (rest : Text) :
    ∃ c, (w.render ++ rest).head? = some c ∧ Text.isBlank c = true := by
  have hblanks := h.blanks
  cases hw : w.blanks with
  | nil => exact absurd hw h.blanks_ne
  | cons c cs =>
      refine ⟨c, by simp [Written.render, hw], ?_⟩
      exact hblanks c (by simp [hw])

theorem Written.Sound.isNameChar_head? {w : Written} (h : w.Sound) (rest : Text) :
    ∀ c ∈ (w.name ++ rest).head?, isNameChar c = true := by
  intro c hc
  cases hw : w.name with
  | nil => exact absurd hw h.name_ne
  | cons d ds =>
      obtain rfl : d = c := by simpa [hw] using hc
      exact h.name d (by simp [hw])

theorem Written.Sound.isBlank_head?_name {w : Written} (h : w.Sound) (rest : Text) :
    ∀ c ∈ (w.name ++ rest).head?, Text.isBlank c = false :=
  fun c hc => (isNameChar_iff.mp (h.isNameChar_head? rest c hc)).1

theorem Written.Sound.dropWhile_isBlank {w : Written} (h : w.Sound) (rest : Text) :
    (w.render ++ rest).dropWhile Text.isBlank =
      w.name ++ ((w.assignment.map Assignment.render).getD [] ++ rest) := by
  simp only [Written.render, List.append_assoc]
  exact Text.dropWhile_append_stop h.blanks (h.isBlank_head?_name _)

theorem Written.Sound.takeWhile_isBlank {w : Written} (h : w.Sound) (rest : Text) :
    (w.render ++ rest).takeWhile Text.isBlank = w.blanks := by
  simp only [Written.render, List.append_assoc]
  exact Text.takeWhile_append_stop h.blanks (h.isBlank_head?_name _)

/-- An attribute does not run on into the next one. -/
theorem Written.stops_render (w : Written) {next : Written} (h : next.Sound) (rest : Text) :
    w.Stops (next.render ++ rest) := by
  obtain ⟨c, hhead, hblank⟩ := h.isBlank_head? rest
  refine ⟨?_, ?_, ?_⟩
  · intro _ d hd
    rw [hhead, Option.mem_some] at hd
    subst hd
    exact isNameChar_eq_false_of_isBlank hblank
  · intro _
    apply assignment?_eq_none
    rw [h.dropWhile_isBlank]
    intro d hd
    exact (isNameChar_iff.mp (h.isNameChar_head? _ d hd)).2.2.2.2.2
  · intro a _ _ d hd
    rw [hhead, Option.mem_some] at hd
    subst hd
    exact isBareChar_eq_false_of_isBlank hblank

theorem written?_render {w : Written} (hw : w.Sound) {rest : Text} (hrest : w.Stops rest) :
    written? (w.render ++ rest) = some (w, rest) := by
  unfold written?
  rw [hw.takeWhile_isBlank, hw.dropWhile_isBlank]
  have hstop : ∀ c ∈ ((w.assignment.map Assignment.render).getD [] ++ rest).head?,
      isNameChar c = false := by
    cases hassign : w.assignment with
    | none => simpa using hrest.name hassign
    | some a => exact (hw.assignment a hassign).isNameChar_head? rest
  simp only [Text.takeWhile_append_stop hw.name hstop, Text.dropWhile_append_stop hw.name hstop]
  split
  · rename_i hblanks
    exact absurd hblanks hw.blanks_ne
  · split
    · rename_i hname
      exact absurd hname hw.name_ne
    · obtain ⟨blanks, name, assignment⟩ := w
      cases assignment with
      | none => simp [hrest.assignment rfl]
      | some a =>
          simp [assignment?_render (hw.assignment a rfl) (hrest.value a rfl)]

/-! ## Attribute lists -/

theorem writtenList_sound {fuel : ℕ} {cs rest : Text} {ws : List Written}
    (h : writtenList fuel cs = (ws, rest)) :
    cs = ws.flatMap Written.render ++ rest ∧ (∀ w ∈ ws, w.Sound) ∧
      ∀ w ∈ ws.getLast?, w.Stops rest := by
  induction fuel generalizing cs ws with
  | zero =>
      obtain ⟨rfl, rfl⟩ := Prod.mk.inj h
      simp
  | succ fuel ih =>
      rw [writtenList] at h
      split at h
      · rename_i w after hwritten
        obtain ⟨hcs, hsound, hstops⟩ := written?_sound hwritten
        rcases hlist : writtenList fuel after with ⟨vs, last⟩
        simp only [hlist, Prod.mk.injEq] at h
        obtain ⟨rfl, rfl⟩ := h
        obtain ⟨hafter, hall, hlast⟩ := ih hlist
        refine ⟨by rw [hcs, hafter]; simp, by simpa using ⟨hsound, hall⟩, ?_⟩
        cases vs with
        | nil =>
            rw [List.flatMap_nil, List.nil_append] at hafter
            simpa [← hafter] using hstops
        | cons v vs => simpa using hlast
      · obtain ⟨rfl, rfl⟩ := Prod.mk.inj h
        simp

theorem stops_flatMap {w : Written} {ws : List Written} (hws : ∀ v ∈ ws, v.Sound) {rest : Text}
    (hlast : ∀ v ∈ (w :: ws).getLast?, v.Stops rest) :
    w.Stops (ws.flatMap Written.render ++ rest) := by
  cases ws with
  | nil => simpa using hlast
  | cons v vs =>
      rw [List.flatMap_cons, List.append_assoc]
      exact w.stops_render (hws v (by simp)) _

theorem writtenList_render {ws : List Written} (hws : ∀ w ∈ ws, w.Sound) {rest : Text}
    (hlast : ∀ w ∈ ws.getLast?, w.Stops rest) (hrest : written? rest = none) {fuel : ℕ}
    (hfuel : ws.length < fuel) :
    writtenList fuel (ws.flatMap Written.render ++ rest) = (ws, rest) := by
  induction ws generalizing fuel with
  | nil =>
      cases fuel with
      | zero => exact absurd hfuel (by simp)
      | succ fuel => simp [writtenList, hrest]
  | cons w ws ih =>
      cases fuel with
      | zero => exact absurd hfuel (by simp)
      | succ fuel =>
          have hsound : ∀ v ∈ ws, v.Sound := fun v hv => hws v (by simp [hv])
          have htail : ∀ v ∈ ws.getLast?, v.Stops rest := by
            cases ws with
            | nil => simp
            | cons v vs => simpa using hlast
          rw [List.flatMap_cons, List.append_assoc, writtenList,
            written?_render (hws w (by simp)) (stops_flatMap hsound hlast)]
          simp only [ih hsound htail (by simpa using hfuel)]

theorem length_le_length_flatMap {ws : List Written} (hws : ∀ w ∈ ws, w.Sound) :
    ws.length ≤ (ws.flatMap Written.render).length := by
  induction ws with
  | nil => simp
  | cons w ws ih =>
      have hpos : 0 < w.blanks.length :=
        List.length_pos_iff.mpr (hws w (by simp)).blanks_ne
      have hlen := ih fun v hv => hws v (by simp [hv])
      simp only [List.length_cons, List.flatMap_cons, List.length_append, Written.render]
      omega

/-! ## Opening tags -/

namespace OpenTag

/-- The end of a tag, with the blanks in front of it. -/
def closing (t : OpenTag) : Text :=
  t.blanks ++ if t.selfClosing then ['/', '>'] else ['>']

theorem render_eq (t : OpenTag) :
    t.render = '<' :: (t.name ++ (t.attributeText ++ t.closing)) := by
  simp [render, closing]

/-- The parts of a tag can be told apart. A bare value takes a slash that touches it. -/
structure Sound (t : OpenTag) : Prop where
  name : ∃ c cs, t.name = c :: cs ∧ Text.isAsciiLetter c = true ∧ ∀ d ∈ cs, isTagChar d = true
  attributes : ∀ w ∈ t.attributes, w.Sound
  blanks : ∀ c ∈ t.blanks, Text.isBlank c = true
  slash : t.selfClosing = true → t.blanks = [] →
    ∀ w ∈ t.attributes.getLast?, ∀ a ∈ w.assignment, a.quoting ≠ .bare

theorem closing_cases (t : OpenTag) :
    ∃ mark tail, t.closing = t.blanks ++ mark :: tail ∧ (mark = '>' ∨ mark = '/') ∧
      (mark = '/' → t.selfClosing = true) := by
  unfold closing
  cases t.selfClosing
  · exact ⟨'>', [], rfl, .inl rfl, by decide⟩
  · exact ⟨'/', ['>'], rfl, .inr rfl, by decide⟩

theorem isBlank_head?_mark {mark : Char} (h : mark = '>' ∨ mark = '/') (tail : Text) :
    ∀ c ∈ (mark :: tail).head?, Text.isBlank c = false := by
  intro c hc
  obtain rfl : mark = c := by simpa using hc
  rcases h with rfl | rfl <;> decide

/-- The end of a tag is no part of the attribute in front of it. -/
theorem Sound.stops_closing {t : OpenTag} (h : t.Sound) (after : Text) :
    ∀ w ∈ t.attributes.getLast?, w.Stops (t.closing ++ after) := by
  obtain ⟨mark, tail, hclosing, hmark, hslash⟩ := t.closing_cases
  intro w hw
  rw [hclosing, List.append_assoc, List.cons_append]
  refine ⟨?_, ?_, ?_⟩
  · intro _ c hc
    cases hblanks : t.blanks with
    | nil =>
        obtain rfl : mark = c := by simpa [hblanks] using hc
        rcases hmark with rfl | rfl <;> decide
    | cons d ds =>
        obtain rfl : d = c := by simpa [hblanks] using hc
        exact isNameChar_eq_false_of_isBlank (h.blanks d (by simp [hblanks]))
  · intro _
    apply assignment?_eq_none
    rw [Text.dropWhile_append_stop h.blanks (isBlank_head?_mark hmark _)]
    intro c hc
    obtain rfl : mark = c := by simpa using hc
    rcases hmark with rfl | rfl <;> decide
  · intro a ha hbare c hc
    cases hblanks : t.blanks with
    | nil =>
        obtain rfl : mark = c := by simpa [hblanks] using hc
        rcases hmark with rfl | rfl
        · decide
        · exact absurd hbare (h.slash (hslash rfl) hblanks w hw a ha)
    | cons d ds =>
        obtain rfl : d = c := by simpa [hblanks] using hc
        exact isBareChar_eq_false_of_isBlank (h.blanks d (by simp [hblanks]))

theorem Sound.written?_closing {t : OpenTag} (h : t.Sound) (after : Text) :
    written? (t.closing ++ after) = none := by
  obtain ⟨mark, tail, hclosing, hmark, _⟩ := t.closing_cases
  have hblank := isBlank_head?_mark hmark (tail ++ after)
  have hname : (mark :: (tail ++ after)).takeWhile isNameChar = [] := by
    have hmarkName : isNameChar mark = false := by rcases hmark with rfl | rfl <;> decide
    simp [hmarkName]
  rw [hclosing, List.append_assoc, List.cons_append, written?,
    Text.takeWhile_append_stop h.blanks hblank, Text.dropWhile_append_stop h.blanks hblank]
  split
  · rfl
  · simp only [hname]

/-- A tag's name ends where its attributes or its end begin. -/
theorem Sound.isTagChar_head? {t : OpenTag} (h : t.Sound) (after : Text) :
    ∀ c ∈ (t.attributeText ++ (t.closing ++ after)).head?, isTagChar c = false := by
  have hneg : ∀ c, isNameChar c = false → isTagChar c = false := by
    intro c hc
    by_contra htag
    rw [isNameChar_of_isTagChar (by simpa using htag)] at hc
    exact Bool.noConfusion hc
  intro c hc
  apply hneg
  cases hattrs : t.attributes with
  | nil =>
      obtain ⟨mark, tail, hclosing, hmark, _⟩ := t.closing_cases
      cases hblanks : t.blanks with
      | nil =>
          obtain rfl : mark = c := by
            simpa [attributeText, hattrs, hclosing, hblanks] using hc
          rcases hmark with rfl | rfl <;> decide
      | cons d ds =>
          obtain rfl : d = c := by
            simpa [attributeText, hattrs, hclosing, hblanks] using hc
          exact isNameChar_eq_false_of_isBlank (h.blanks d (by simp [hblanks]))
  | cons w ws =>
      obtain ⟨d, hd, hblank⟩ := (h.attributes w (by simp [hattrs])).isBlank_head?
        (ws.flatMap Written.render ++ (t.closing ++ after))
      rw [attributeText, hattrs, List.flatMap_cons, List.append_assoc, hd,
        Option.mem_some] at hc
      subst hc
      exact isNameChar_eq_false_of_isBlank hblank

end OpenTag

/-- What is read as an opening tag stands in the text as it is rendered. -/
theorem openTag?_sound {cs after : Text} {t : OpenTag} (h : openTag? cs = some (t, after)) :
    t.Sound ∧ cs = t.render ++ after := by
  unfold openTag? at h
  split at h
  · rename_i c rest
    split at h
    · rename_i hletter
      rcases hlist : writtenList (rest.length + 1) (rest.dropWhile isTagChar) with ⟨ws, rest'⟩
      obtain ⟨hrest, hsound, hlast⟩ := writtenList_sound hlist
      have htag : ∀ d ∈ rest.takeWhile isTagChar, isTagChar d = true :=
        fun d hd => List.mem_takeWhile_imp hd
      have hblank : ∀ d ∈ rest'.takeWhile Text.isBlank, Text.isBlank d = true :=
        fun d hd => List.mem_takeWhile_imp hd
      have hcs : rest = rest.takeWhile isTagChar ++ (ws.flatMap Written.render ++
          (rest'.takeWhile Text.isBlank ++ rest'.dropWhile Text.isBlank)) := by
        rw [List.takeWhile_append_dropWhile, ← hrest, List.takeWhile_append_dropWhile]
      simp only [hlist] at h
      split at h
      · rename_i tail hend
        simp only [Option.some.injEq, Prod.mk.injEq] at h
        obtain ⟨rfl, rfl⟩ := h
        refine ⟨⟨⟨c, _, rfl, hletter, htag⟩, hsound, hblank, by simp⟩, ?_⟩
        rw [hend] at hcs
        simpa [OpenTag.render, OpenTag.attributeText] using hcs
      · rename_i tail hend
        simp only [Option.some.injEq, Prod.mk.injEq] at h
        obtain ⟨rfl, rfl⟩ := h
        refine ⟨⟨⟨c, _, rfl, hletter, htag⟩, hsound, hblank, ?_⟩, ?_⟩
        · intro _ hblanks w hw a ha hbare
          have hslash : rest'.head? = some '/' := by
            have hwhole := List.takeWhile_append_dropWhile (p := Text.isBlank) (l := rest')
            dsimp only at hblanks
            rw [hblanks, List.nil_append, hend] at hwhole
            rw [← hwhole]
            rfl
          have hnone := (hlast w hw).value a ha hbare '/' hslash
          exact absurd hnone (by decide)
        · rw [hend] at hcs
          simpa [OpenTag.render, OpenTag.attributeText] using hcs
      · simp at h
    · simp at h
  · simp at h

/-- A sound tag is read back, whatever follows it. -/
theorem openTag?_render {t : OpenTag} (ht : t.Sound) (after : Text) :
    openTag? (t.render ++ after) = some (t, after) := by
  obtain ⟨c, cs, hname, hletter, htag⟩ := ht.name
  have hstop := ht.isTagChar_head? after
  have hfuel : t.attributes.length <
      (cs ++ (t.attributeText ++ (t.closing ++ after))).length + 1 := by
    have hlen := length_le_length_flatMap ht.attributes
    simp only [List.length_append, OpenTag.attributeText]
    omega
  have hlist := writtenList_render ht.attributes (ht.stops_closing after)
    (ht.written?_closing after) hfuel
  rw [OpenTag.render_eq, hname]
  simp only [List.cons_append, List.append_assoc]
  rw [openTag?, if_pos hletter]
  simp only [Text.dropWhile_append_stop htag hstop, Text.takeWhile_append_stop htag hstop]
  simp only [OpenTag.attributeText] at hlist ⊢
  rw [hlist]
  obtain ⟨name, attributes, blanks, selfClosing⟩ := t
  obtain rfl : name = c :: cs := hname
  have hend := OpenTag.isBlank_head?_mark (.inl rfl) after
  have hslash := OpenTag.isBlank_head?_mark (.inr rfl) ('>' :: after)
  cases selfClosing
  · simp [OpenTag.closing, Text.dropWhile_append_stop ht.blanks hend,
      Text.takeWhile_append_stop ht.blanks hend]
  · simp [OpenTag.closing, Text.dropWhile_append_stop ht.blanks hslash,
      Text.takeWhile_append_stop ht.blanks hslash]

/-- A tag that is read on a line stands at its column. -/
theorem exists_of_mem_openTags {fuel n column : ℕ} {cs after : Text} {t : OpenTag}
    (h : (column, t, after) ∈ openTags fuel n cs) :
    ∃ front, cs = front ++ (t.render ++ after) ∧ column = n + front.length ∧ t.Sound := by
  induction fuel generalizing n cs with
  | zero => exact absurd h List.not_mem_nil
  | succ fuel ih =>
      rw [openTags.eq_def] at h
      dsimp only at h
      split at h
      · rename_i u rest hread
        obtain ⟨hu, rfl⟩ := openTag?_sound hread
        rcases List.mem_cons.mp h with hhere | hlater
        · obtain ⟨rfl, rfl, rfl⟩ : column = n ∧ t = u ∧ after = rest := by simpa using hhere
          exact ⟨[], rfl, rfl, hu⟩
        · obtain ⟨front, rfl, rfl, ht⟩ := ih hlater
          refine ⟨u.render ++ front, by simp, ?_, ht⟩
          simp only [List.length_append]
          omega
      · split at h
        · exact absurd h List.not_mem_nil
        · rename_i c rest _
          obtain ⟨front, rfl, rfl, ht⟩ := ih h
          refine ⟨c :: front, rfl, ?_, ht⟩
          simp only [List.length_cons]
          omega

end MarkupIds.Sfc
