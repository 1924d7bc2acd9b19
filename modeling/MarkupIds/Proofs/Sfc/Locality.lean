import MarkupIds.Proofs.Sfc.Revision
import Mathlib.Data.List.Forall2

/-!
# Edits stay on their lines

An edit rewrites the inside of one opening tag. The bracket and the first letter of the tag stay,
so no line turns into a marker of a section or stops being one. By induction over the edits, the
file keeps its lines and its sections.
-/

namespace MarkupIds.Sfc

/-! ## Finding the tag and the attribute -/

theorem findTag?_sound {tag line before found : Text}
    (h : findTag? tag line = some (before, found)) :
    line = before ++ found ∧ (afterTag? tag found).isSome = true := by
  induction line generalizing before with
  | nil => exact nomatch h
  | cons c line ih =>
      rw [findTag?] at h
      split at h
      · rename_i hhere
        obtain ⟨rfl, rfl⟩ := Prod.mk.inj (Option.some.inj h)
        exact ⟨rfl, hhere⟩
      · obtain ⟨⟨before', found'⟩, hfound, hparts⟩ := Option.map_eq_some_iff.mp h
        obtain ⟨rfl, rfl⟩ := Prod.mk.inj hparts
        obtain ⟨rfl, htag⟩ := ih hfound
        exact ⟨rfl, htag⟩

theorem locateTag?_sound {tag line before found : Text} {column : ℤ}
    (h : locateTag? tag column line = some (before, found)) :
    line = before ++ found ∧ (afterTag? tag found).isSome = true := by
  unfold locateTag? at h
  dsimp only at h
  split at h
  · rename_i hhere
    obtain ⟨rfl, rfl⟩ := Prod.mk.inj (Option.some.inj h)
    exact ⟨(List.take_append_drop _ line).symm, hhere⟩
  · exact findTag?_sound h

theorem findWritten?_sound {name : Text} {fuel : ℕ} {cs before after : Text} {w : Written}
    (h : findWritten? name fuel cs = some (before, w, after)) :
    cs = before ++ (w.render ++ after) ∧ w.name = name ∧ w.Sound := by
  induction fuel generalizing cs before with
  | zero =>
      have hnone : findWritten? name 0 cs = none := rfl
      rw [hnone] at h
      exact nomatch h
  | succ fuel ih =>
      rw [findWritten?.eq_def] at h
      dsimp only at h
      split at h
      · rename_i v rest hwritten
        obtain ⟨hcs, hsound, _⟩ := written?_sound hwritten
        split at h
        · rename_i hname
          obtain ⟨rfl, rfl, rfl⟩ : [] = before ∧ v = w ∧ rest = after := by simpa using h
          exact ⟨hcs, by simpa using hname, hsound⟩
        · obtain ⟨⟨before', w', after'⟩, hfound, hparts⟩ := Option.map_eq_some_iff.mp h
          obtain ⟨rfl, rfl, rfl⟩ : v.render ++ before' = before ∧ w' = w ∧ after' = after := by
            simpa using hparts
          obtain ⟨hrest, hfacts⟩ := ih hfound
          refine ⟨?_, hfacts⟩
          rw [hcs, hrest, List.append_assoc]
      · cases cs with
        | nil => exact nomatch h
        | cons c rest =>
            obtain ⟨⟨before', w', after'⟩, hfound, hparts⟩ := Option.map_eq_some_iff.mp h
            obtain ⟨rfl, rfl, rfl⟩ : c :: before' = before ∧ w' = w ∧ after' = after := by
              simpa using hparts
            obtain ⟨hrest, hfacts⟩ := ih hfound
            refine ⟨?_, hfacts⟩
            rw [hrest, List.cons_append]

/-! ## Inside a tag -/

/-- What an edit writes in place of a tag up to its end: it cuts the tag behind as many characters
as the name it looks for has, and edits what stands there as attributes. -/
def Writes (e : Edit) (t : OpenTag) (opened : Text) : Prop :=
  let head := t.inside.take (e.element.tag.length + 1)
  let body := t.inside.drop (e.element.tag.length + 1)
  match e.kind with
  | .remove => removeAttribute? e.name head body t.slash = some opened
  | .add | .modify => opened = setAttribute e.name e.value head body t.slash

/-- An edit of a line finds a tag and writes another inside for it. -/
theorem exists_writes_of_editLine {line line' : Text} {e : Edit} (h : editLine line e = .ok line') :
    ∃ before t after opened, t.Sound ∧ Writes e t opened ∧
      locateTag? e.element.tag e.position.column line = some (before, t.render ++ after) ∧
      line' = before ++ (opened ++ '>' :: after) := by
  unfold editLine at h
  dsimp only at h
  split at h
  · exact nomatch h
  · rename_i before found hlocate
    split at h
    · exact nomatch h
    · rename_i t after htag
      obtain ⟨hsound, rfl⟩ := openTag?_sound htag
      have hslash : (if t.selfClosing = true then ['/'] else []) = t.slash := rfl
      rw [hslash, t.take_inside] at h
      cases hkind : e.kind with
      | remove =>
          simp only [hkind] at h
          split at h
          · rename_i opened hremove
            refine ⟨before, t, after, opened, hsound, ?_, hlocate, ?_⟩
            · simpa only [Writes, hkind] using hremove
            · simpa using (Except.ok.inj h).symm
          · exact nomatch h
      | _ =>
          simp only [hkind] at h
          refine ⟨before, t, after, setAttribute e.name e.value
            (t.inside.take (e.element.tag.length + 1)) (t.inside.drop (e.element.tag.length + 1))
            t.slash, hsound, ?_, hlocate, ?_⟩
          · simp only [Writes, hkind]
          · simpa using (Except.ok.inj h).symm

/-! ## What a tag keeps -/

/-- An attribute is set in its place, or else behind the last character that is no blank. -/
theorem setAttribute_cases (name value head body slash : Text) :
    (∃ before w after, findWritten? name (body.length + 1) body = some (before, w, after) ∧
      setAttribute name value head body slash =
        head ++ (before ++ (w.blanks.take 1 ++ (renderAttribute name value ++ (after ++ slash))))) ∨
    ∃ blanks, head ++ body = Text.trimEnd (head ++ body) ++ blanks ∧
      setAttribute name value head body slash =
        Text.trimEnd (head ++ body) ++ (' ' :: renderAttribute name value ++ (blanks ++ slash)) := by
  unfold setAttribute
  split
  · rename_i before w after hfound
    exact .inl ⟨before, w, after, hfound, by simp only [List.append_assoc]⟩
  · obtain ⟨blanks, hblanks⟩ := Text.dropTailWhile_isPrefix Text.isBlank (head ++ body)
    refine .inr ⟨blanks, hblanks.symm, ?_⟩
    have hdrop : (head ++ body).drop (Text.trimEnd (head ++ body)).length = blanks :=
      (congrArg (List.drop _) hblanks.symm).trans List.drop_left
    simp only [hdrop, List.append_assoc, List.cons_append]

theorem setAttribute_starts {c : Char} (hink : Text.isBlank c = false)
    (name value tail body slash : Text) :
    ∃ rest, setAttribute name value ('<' :: c :: tail) body slash = '<' :: c :: rest := by
  rcases setAttribute_cases name value ('<' :: c :: tail) body slash with
    ⟨before, w, after, _, heq⟩ | ⟨blanks, _, heq⟩
  · exact ⟨_, heq⟩
  · have hstart : Text.trimEnd ('<' :: c :: (tail ++ body)) =
        '<' :: c :: Text.trimEnd (tail ++ body) := by
      simp only [Text.trimEnd, Text.dropTailWhile_cons (by decide : Text.isBlank '<' = false),
        Text.dropTailWhile_cons hink]
    simp only [List.cons_append, hstart] at heq
    exact ⟨_, heq⟩

theorem setAttribute_subset (name value head body slash : Text) :
    setAttribute name value head body slash ⊆
      head ++ body ++ slash ++ ' ' :: renderAttribute name value := by
  intro c hc
  rcases setAttribute_cases name value head body slash with
    ⟨before, w, after, hfound, heq⟩ | ⟨blanks, hwhole, heq⟩
  · obtain ⟨hbody, _⟩ := findWritten?_sound hfound
    have hblanks : c ∈ w.blanks.take 1 → c ∈ w.render := by
      intro hmem
      simp [Written.render, List.mem_of_mem_take hmem]
    rw [heq] at hc
    rw [hbody]
    simp only [List.mem_append, List.mem_cons] at hc ⊢
    tauto
  · rw [heq] at hc
    rw [hwhole]
    simp only [List.mem_append, List.mem_cons] at hc ⊢
    tauto

theorem removeAttribute?_eq_some {name head body slash opened : Text}
    (h : removeAttribute? name head body slash = some opened) :
    ∃ (before : Text) (w : Written) (after : Text), body = before ++ (w.render ++ after) ∧
      opened = head ++ (before ++ (after ++ slash)) := by
  obtain ⟨⟨before, w, after⟩, hfound, rfl⟩ := Option.map_eq_some_iff.mp h
  refine ⟨before, w, after, (findWritten?_sound hfound).1, ?_⟩
  simp only [List.append_assoc]

theorem removeAttribute?_subset {name head body slash opened : Text}
    (h : removeAttribute? name head body slash = some opened) : opened ⊆ head ++ body ++ slash := by
  obtain ⟨before, w, after, rfl, rfl⟩ := removeAttribute?_eq_some h
  intro c hc
  simp only [List.mem_append] at hc ⊢
  tauto

section Writes

variable {e : Edit} {t : OpenTag} {opened : Text}

/-- The bracket and the first letter of a tag stay. -/
theorem Writes.starts (h : Writes e t opened) (htag : e.element.tag ≠ []) {c : Char} {cs : Text}
    (hname : t.name = c :: cs) (hink : Text.isBlank c = false) :
    ∃ tail, opened = '<' :: c :: tail := by
  obtain ⟨d, tag, hd⟩ := List.exists_cons_of_ne_nil htag
  have hhead : ∃ tail, t.inside.take (e.element.tag.length + 1) = '<' :: c :: tail := by
    simp [OpenTag.inside, OpenTag.opening, hname, hd]
  obtain ⟨tail, htail⟩ := hhead
  unfold Writes at h
  simp only [htail] at h
  split at h
  · obtain ⟨before, w, after, _, rfl⟩ := removeAttribute?_eq_some h
    exact ⟨_, rfl⟩
  all_goals
    rw [h]
    exact setAttribute_starts hink _ _ _ _ _

/-- Nothing is written that is neither in the tag nor in the attribute. -/
theorem Writes.subset (h : Writes e t opened) :
    opened ⊆ t.inside ++ t.slash ++ ' ' :: renderAttribute e.name e.value := by
  unfold Writes at h
  dsimp only at h
  have hinside := List.take_append_drop (e.element.tag.length + 1) t.inside
  split at h
  · have hsubset := removeAttribute?_subset h
    rw [hinside] at hsubset
    exact List.subset_append_of_subset_left _ hsubset
  all_goals
    rw [h]
    have hsubset := setAttribute_subset e.name e.value
      (t.inside.take (e.element.tag.length + 1)) (t.inside.drop (e.element.tag.length + 1)) t.slash
    rwa [hinside] at hsubset

end Writes

/-! ## Edited lines -/

theorem ne_nil_of_afterTag? {t : OpenTag} {c : Char} {cs : Text} (hname : t.name = c :: cs)
    (hchar : isNameChar c = true) {tag after : Text}
    (h : (afterTag? tag (t.render ++ after)).isSome = true) : tag ≠ [] := by
  -- Behind an empty name a blank or the end of the tag would have to follow.
  rintro rfl
  obtain ⟨hink, _, _, hend, hslash, _⟩ := isNameChar_iff.mp hchar
  simp [afterTag?, OpenTag.render_eq, hname, Text.after?, hink, hend, hslash] at h

/-- A line that an edit is made on closes what it closed, and has no other characters than those
it had and those of the attribute. -/
theorem editLine_keeps {line line' : Text} {e : Edit} (h : editLine line e = .ok line') :
    closes? line' = closes? line ∧ line' ⊆ line ++ ' ' :: renderAttribute e.name e.value := by
  obtain ⟨before, t, after, opened, ht, hwrites, hlocate, rfl⟩ := exists_writes_of_editLine h
  obtain ⟨rfl, htag⟩ := locateTag?_sound hlocate
  obtain ⟨c, cs, hname, hletter, _⟩ := ht.name
  have hchar := isNameChar_of_isTagChar (isTagChar_of_isAsciiLetter hletter)
  constructor
  · -- Whether a line closes a section is settled before the first letter of any of its tags.
    obtain ⟨tail, rfl⟩ :=
      hwrites.starts (ne_nil_of_afterTag? hname hchar htag) hname (isNameChar_iff.mp hchar).1
    rw [OpenTag.render_eq, hname]
    exact closes?_stopsAtTags before c _ _ hletter
  · have hopened := hwrites.subset
    rw [t.render_eq_inside]
    intro d hd
    simp only [List.mem_append, List.mem_cons] at hd ⊢
    rcases hd with hd | hd | hd | hd
    · exact .inl (.inl hd)
    · have hsource := hopened hd
      simp only [List.mem_append, List.mem_cons] at hsource
      tauto
    · exact .inl (.inr (.inr (.inr (.inl hd))))
    · exact .inl (.inr (.inr (.inr (.inr hd))))

theorem newline_not_mem_renderAttribute {name value : Text} (hname : '\n' ∉ name)
    (hvalue : '\n' ∉ value) : '\n' ∉ renderAttribute name value := by
  intro hmem
  rw [renderAttribute] at hmem
  simp only [List.mem_append, List.mem_cons] at hmem
  have hquoted : '\n' ∉ Text.replace ['"'] "&quot;".toList value := by
    intro hin
    rcases List.mem_append.mp (Text.replace_subset _ _ _ hin) with hin | hin
    · exact hvalue hin
    · exact absurd hin (by decide)
  simp_all

theorem newline_not_mem_of_editLine {line line' : Text} {e : Edit}
    (h : editLine line e = .ok line') (hline : '\n' ∉ line) (hname : '\n' ∉ e.name)
    (hvalue : '\n' ∉ e.value) : '\n' ∉ line' := by
  intro hmem
  have hbreak := (editLine_keeps h).2 hmem
  simp only [List.mem_append, List.mem_cons] at hbreak
  rcases hbreak with hbreak | hbreak | hbreak
  · exact hline hbreak
  · exact absurd hbreak (by decide)
  · exact newline_not_mem_renderAttribute hname hvalue hbreak

/-! ## Runs of edits -/

theorem editLines_eq_ok {start : ℕ} {lines lines' : List Text} {e : Edit}
    (h : editLines start lines e = .ok lines') :
    ∃ i line line', e.position.line = start + (i : ℕ) ∧ lines[i]? = some line ∧
      editLine line e = .ok line' ∧ lines' = lines.set i line' := by
  unfold editLines at h
  dsimp only at h
  split at h
  · exact nomatch h
  · rename_i hindex
    simp only [pure, Except.pure, bind, Except.bind] at h
    split at h
    · exact nomatch h
    · rename_i line hline
      cases hedit : editLine line e with
      | error reason => simp [hedit] at h
      | ok line' =>
          refine ⟨(e.position.line - start).toNat, line, line', by omega, hline, hedit, ?_⟩
          simpa [hedit] using h.symm

theorem map_closes?_set {lines : List Text} {i : ℕ} {line line' : Text}
    (hline : lines[i]? = some line) (hcloses : closes? line' = closes? line) :
    (lines.set i line').map closes? = lines.map closes? := by
  have hsame : (lines.map closes?)[i]? = some (closes? line') := by
    rw [List.getElem?_map, hline, hcloses]
    rfl
  obtain ⟨hlt, hget⟩ := List.getElem?_eq_some_iff.mp hsame
  rw [List.map_set, ← hget]
  exact List.set_getElem_self hlt

/-- The lines of a template, some edits after they were `lines`. -/
structure Progress.Keeps (start : ℕ) (lines : List Text) (p : Progress) : Prop where
  closes : p.lines.map closes? = lines.map closes?
  unbroken : ∀ line ∈ p.lines, '\n' ∉ line
  elsewhere : ∀ i : ℕ, (∀ e ∈ p.applied, e.position.line ≠ start + i) → p.lines[i]? = lines[i]?
  inside : ∀ e ∈ p.applied, ∃ i < lines.length, e.position.line = start + (i : ℕ)
  warnings : ∀ d ∈ p.diagnostics, d.severity = .warning

theorem Progress.Keeps.length_eq {start : ℕ} {lines : List Text} {p : Progress}
    (h : p.Keeps start lines) : p.lines.length = lines.length := by
  simpa using congrArg List.length h.closes

/-- One edit, made or refused. -/
theorem Progress.Keeps.step {start : ℕ} {lines : List Text} {p : Progress}
    (h : p.Keeps start lines) {e : Edit} (hname : '\n' ∉ e.name) (hvalue : '\n' ∉ e.value) :
    (p.step start e).Keeps start lines := by
  unfold Progress.step
  split
  · rename_i lines' hedit
    obtain ⟨i, line, line', hplace, hline, heditLine, rfl⟩ := editLines_eq_ok hedit
    refine ⟨?_, ?_, ?_, ?_, h.warnings⟩
    · exact (map_closes?_set hline (editLine_keeps heditLine).1).trans h.closes
    · intro text htext
      rcases List.mem_or_eq_of_mem_set htext with hold | rfl
      · exact h.unbroken text hold
      · have hunbroken := h.unbroken line (List.mem_of_getElem? hline)
        exact newline_not_mem_of_editLine heditLine hunbroken hname hvalue
    · intro j hj
      have hne : i ≠ j := by
        rintro rfl
        exact hj e (by simp) hplace
      rw [List.getElem?_set_ne hne]
      exact h.elsewhere j fun f hf => hj f (by simp [hf])
    · intro f hf
      rcases List.mem_append.mp hf with hf | hf
      · exact h.inside f hf
      · obtain rfl : f = e := by simpa using hf
        obtain ⟨hlt, _⟩ := List.getElem?_eq_some_iff.mp hline
        exact ⟨i, h.length_eq ▸ hlt, hplace⟩
  · refine ⟨h.closes, h.unbroken, h.elsewhere, h.inside, ?_⟩
    intro d hd
    rcases List.mem_append.mp hd with hd | hd
    · exact h.warnings d hd
    · obtain rfl := List.mem_singleton.mp hd
      rfl

theorem Progress.Keeps.foldl {start : ℕ} {lines : List Text} {edits : List Edit}
    (hedits : ∀ e ∈ edits, '\n' ∉ e.name ∧ '\n' ∉ e.value) {p : Progress}
    (h : p.Keeps start lines) : (edits.foldl (Progress.step start) p).Keeps start lines := by
  induction edits generalizing p with
  | nil => exact h
  | cons e edits ih =>
      rw [List.forall_mem_cons] at hedits
      exact ih hedits.2 (h.step hedits.1.1 hedits.1.2)

theorem keeps_bottomUp {start : ℕ} {lines : List Text} (hlines : ∀ line ∈ lines, '\n' ∉ line)
    {edits : List Edit} (hedits : ∀ e ∈ edits, '\n' ∉ e.name ∧ '\n' ∉ e.value) :
    ((bottomUp edits).foldl (Progress.step start) { lines }).Keeps start lines := by
  have hstart : Progress.Keeps start lines { lines } :=
    ⟨rfl, hlines, fun _ _ => rfl, by simp, by simp⟩
  apply hstart.foldl
  intro e he
  exact hedits e (List.mem_mergeSort.mp he)

/-! ## Files -/

/-- A section stands where it stood. Only the template may have other lines. -/
def Section.Stays (s s' : Section) : Prop :=
  s'.name = s.name ∧ s'.openLine = s.openLine ∧ s'.closeLine = s.closeLine ∧
    (s.name ≠ "template".toList → s'.lines = s.lines)

/-- What a revision reports whose file has other sections than the source. -/
def layoutFailure : Diagnostic :=
  .failure "Transform error: rewritten file changed its section layout".toList

/-- A revision that keeps to the template and to the lines of its edits. -/
structure Local (source : Text) (r : Revision) : Prop where
  length_eq : (Text.split '\n' r.code).length = (Text.split '\n' source).length
  elsewhere : ∀ n : ℕ, (∀ e ∈ r.applied, e.position.line ≠ n + 1) →
    (Text.split '\n' r.code)[n]? = (Text.split '\n' source)[n]?
  inside : ∀ e ∈ r.applied, ∃ template, section? source "template" = some template ∧
    template.startLine ≤ e.position.line ∧ e.position.line ≤ template.endLine
  sections : List.Forall₂ Section.Stays (sections source) (sections r.code)
  layout : layoutFailure ∉ r.diagnostics

theorem Section.withLines_stays (lines : List Text) (s : Section) :
    s.Stays (s.withLines "template".toList lines) := by
  unfold Section.withLines
  split
  · rename_i hname
    exact ⟨rfl, rfl, rfl, fun hother => absurd hname hother⟩
  · exact ⟨rfl, rfl, rfl, fun _ => rfl⟩

theorem local_of_unchanged {source : Text} {r : Revision} (hcode : r.code = source)
    (happlied : r.applied = []) (hlayout : layoutFailure ∉ r.diagnostics) : Local source r := by
  refine ⟨by rw [hcode], fun n _ => by rw [hcode], by simp [happlied], ?_, hlayout⟩
  rw [hcode]
  exact List.forall₂_same.mpr fun s _ => ⟨rfl, rfl, rfl, fun _ => rfl⟩

theorem layoutFailure_not_mem {ds : List Diagnostic} (h : ∀ d ∈ ds, d.severity = .warning) :
    layoutFailure ∉ ds := by
  intro hmem
  exact nomatch h _ hmem

/-- Lines between others, in the place of as many. -/
theorem getElem?_between {front lines lines' back : List Text}
    (hlength : lines'.length = lines.length) {n : ℕ}
    (h : ∀ i, n = front.length + i → lines'[i]? = lines[i]?) :
    (front ++ (lines' ++ back))[n]? = (front ++ (lines ++ back))[n]? := by
  by_cases hfront : n < front.length
  · rw [List.getElem?_append_left hfront, List.getElem?_append_left hfront]
  · have hbehind : front.length ≤ n := Nat.le_of_not_lt hfront
    obtain ⟨i, rfl⟩ := Nat.exists_eq_add_of_le hbehind
    rw [List.getElem?_append_right hbehind, List.getElem?_append_right hbehind,
      Nat.add_sub_cancel_left]
    by_cases hlines : i < lines.length
    · rw [List.getElem?_append_left hlines, List.getElem?_append_left (hlength ▸ hlines)]
      exact h i rfl
    · rw [not_lt] at hlines
      rw [List.getElem?_append_right hlines, List.getElem?_append_right (hlength ▸ hlines), hlength]

/-- The file with the lines that some edits made of its template. -/
theorem Progress.Keeps.local {source : Text} {template : Section}
    (htemplate : section? source "template" = some template) {p : Progress}
    (h : p.Keeps template.startLine template.lines) :
    let code := replaceLines source template p.lines
    sections code = (sections source).map (Section.withLines "template".toList p.lines) ∧
      Local source { code, diagnostics := p.diagnostics, applied := p.applied } := by
  have hlength := h.length_eq
  have hsections := sections_replaceLines htemplate hlength h.unbroken
    (closes?_of_map_closes? htemplate h.closes)
  obtain ⟨front, back, hframe⟩ := exists_section_frame htemplate
  have hlines := hframe.split_replaceLines hlength h.unbroken
  have hopen := hframe.openLine
  refine ⟨hsections, ?_, ?_, ?_, ?_, layoutFailure_not_mem h.warnings⟩
  · rw [hlines, hframe.lines_eq]
    simp only [List.length_append, hlength]
  · intro n hn
    rw [hlines, hframe.lines_eq]
    apply getElem?_between hlength
    intro i hi
    refine h.elsewhere i fun e he => ?_
    have hline := hn e he
    unfold Section.startLine
    push_cast at hline ⊢
    omega
  · intro e he
    obtain ⟨i, hi, hplace⟩ := h.inside e he
    refine ⟨template, htemplate, by omega, ?_⟩
    simp only [hplace, Section.startLine, Section.endLine]
    push_cast
    omega
  · dsimp only
    rw [hsections, List.forall₂_map_right_iff]
    exact List.forall₂_same.mpr fun s _ => s.withLines_stays p.lines

/-- Edits of a component are made on the lines of its template, which the new file has in their
place. -/
theorem revise_eq {source : Text} {template : Section}
    (htemplate : section? source "template" = some template) {edits : List Edit}
    (hne : edits ≠ []) (hedits : ∀ e ∈ edits, '\n' ∉ e.name ∧ '\n' ∉ e.value) {done : Progress}
    (hdone : (bottomUp edits).foldl (Progress.step template.startLine) { lines := template.lines } =
      done) :
    let code := replaceLines source template done.lines
    (section? code "template" = some { template with lines := done.lines }) ∧
      revise source edits =
        if done.applied.isEmpty then { code := source, diagnostics := done.diagnostics }
        else { code, diagnostics := done.diagnostics, applied := done.applied } := by
  subst hdone
  have hkeeps : ((bottomUp edits).foldl (Progress.step template.startLine)
      { lines := template.lines }).Keeps template.startLine template.lines :=
    keeps_bottomUp (newline_not_mem_section htemplate) hedits
  have hbody := closes?_of_map_closes? htemplate hkeeps.closes
  refine ⟨section?_replaceLines htemplate hkeeps.length_eq hkeeps.unbroken hbody, ?_⟩
  rw [revise, if_neg (by simpa using hne), htemplate]
  dsimp only
  rw [(hkeeps.local htemplate).1, sameNames_map_withLines, if_pos rfl]

/-- Edits without line breaks, at whatever tags and places they are asked for, change no line but
their own and no section but the template. The check of the layout never fails. -/
theorem revise_local (source : Text) {edits : List Edit}
    (hedits : ∀ e ∈ edits, '\n' ∉ e.name ∧ '\n' ∉ e.value) :
    Local source (revise source edits) := by
  unfold revise
  split
  · exact local_of_unchanged rfl rfl (by simp)
  · split
    · refine local_of_unchanged rfl rfl ?_
      simp [Revision.refused, layoutFailure, Diagnostic.failure]
    · rename_i template htemplate
      have hkeeps : ((bottomUp edits).foldl (Progress.step template.startLine)
          { lines := template.lines }).Keeps template.startLine template.lines :=
        keeps_bottomUp (newline_not_mem_section htemplate) hedits
      obtain ⟨hsections, hlocal⟩ := hkeeps.local htemplate
      dsimp only
      split
      · exact local_of_unchanged rfl rfl (layoutFailure_not_mem hkeeps.warnings)
      · split
        · exact hlocal
        · -- The sections differ in the lines of the template alone, so their names agree.
          rename_i hnames
          rw [hsections, sameNames_map_withLines] at hnames
          exact absurd rfl hnames

/-- An edit that writes the marker of the template's end into the template. -/
theorem revise_local_marker :
    let source := "<TEMPLATE>\n<a x=1><b>\n</Template >\n<script>".toList
    let marker : Edit :=
      { kind := .modify, element := { tag := ['a'] }, name := ['x'], value := "</template>".toList
        position := ⟨2, 1, 11⟩ }
    Local source (revise source [marker]) ∧
      (revise source [marker]).code =
        "<TEMPLATE>\n<a x=\"</template>\"><b>\n</Template >\n<script>".toList := by
  refine ⟨revise_local _ ?_, ?_⟩
  · decide
  · rw [revise, bottomUp_eq_reverse (List.pairwise_singleton _ _)]
    decide

end MarkupIds.Sfc
