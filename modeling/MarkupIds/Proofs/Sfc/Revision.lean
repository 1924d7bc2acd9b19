import MarkupIds.Proofs.Sfc.Section
import MarkupIds.Proofs.Sfc.Update
import Mathlib.Data.List.Pairwise

/-!
# Edits make layouts grow

Each edit finds its tag and adds to it. Edits made from the bottom to the top leave the places of
the others as they were, so a whole run of edits is the growth of the sheet.
-/

namespace MarkupIds.Sfc

/-! ## One edit -/

/-- A tag without the attribute gets it at its end. -/
theorem OpenTag.set_eq_push {t : OpenTag} {name value : Text} (hplain : Plain name value)
    (hmissing : ∀ w ∈ t.attributes, w.name ≠ name) :
    t.set name value = t.push (added name value) := by
  have hquoted : quoted value = value :=
    Text.replace_of_not_mem (hplain.not_mem_value (c := '"') (by decide)) _
  rw [OpenTag.set, OpenTag.push, setWritten_of_missing hmissing, hquoted]

theorem editLine_push {line offset : ℕ} {t : OpenTag} {after front rest : Text} {e : Edit}
    (ht : t.Sound) (hfits : Fits line offset front.length t after e) :
    editLine (front ++ (t.render ++ rest)) e =
      .ok (front ++ ((t.push (added e.name e.value)).render ++ rest)) := by
  have htag : e.element.tag = t.name := by rw [hfits.element]; rfl
  have hcolumn : (e.position.column - 1).toNat = front.length := by
    rw [hfits.position]
    simp
  rw [editLine_render ht htag hcolumn, hfits.kind, if_neg (by decide),
    OpenTag.set_eq_push hfits.plain hfits.missing]

/-! ## The edits of a line and of a sheet -/

theorem Progress.step_push {start line offset : ℕ} {t : OpenTag} {after front rest : Text}
    {e : Edit} {above below : List Text} {diagnostics : List Diagnostic} {applied : List Edit}
    (ht : t.Sound) (hfits : Fits line offset front.length t after e)
    (hline : line = start + above.length) :
    Progress.step start ⟨above ++ (front ++ (t.render ++ rest)) :: below, diagnostics, applied⟩ e =
      ⟨above ++ (front ++ ((t.push (added e.name e.value)).render ++ rest)) :: below,
        diagnostics, applied ++ [e]⟩ := by
  have hindex : e.position.line - start = (above.length : ℤ) := by
    rw [hfits.position, hline]
    push_cast
    omega
  have hedit : editLines start (above ++ (front ++ (t.render ++ rest)) :: below) e =
      .ok (above ++ (front ++ ((t.push (added e.name e.value)).render ++ rest)) :: below) := by
    simp [editLines, hindex, editLine_push ht hfits, bind, Except.bind, pure, Except.pure]
  rw [Progress.step, hedit]

/-- The edits of a line, the last one first, make its layout grow. -/
theorem Grows.execution {start line offset n : ℕ} {ps qs : List Piece} {es : List Edit}
    (h : Grows line offset n ps es qs) (hps : Reads ps) (front : Text) (hn : n = front.length)
    (above below : List Text) (hline : line = start + above.length)
    (diagnostics : List Diagnostic) (applied : List Edit) :
    es.foldr (fun e p => Progress.step start p e)
        ⟨above ++ (front ++ rawText ps) :: below, diagnostics, applied⟩ =
      ⟨above ++ (front ++ rawText qs) :: below, diagnostics, applied ++ es.reverse⟩ := by
  induction h generalizing front with
  | nil n => simp
  | @char n c d ps es qs _ ih =>
      rw [rawText_char, rawText_char, List.append_cons front c (rawText ps),
        List.append_cons front c (rawText qs)]
      exact ih hps.2 (front ++ [c]) (by simp [hn])
  | @keep n t ps es qs _ ih =>
      rw [rawText_tag, rawText_tag, ← List.append_assoc, ← List.append_assoc]
      exact ih hps.2.2 (front ++ t.render) (by simp [hn])
  | @push n t ps e es qs hfits _ ih =>
      subst hn
      have hlater := ih hps.2.2 (front ++ t.render) (by simp)
      simp only [List.append_assoc] at hlater
      rw [List.foldr_cons, rawText_tag, hlater, Progress.step_push hps.1 hfits hline, rawText_tag]
      simp

/-- The edits of a sheet, the last one first, make it grow and are all applied. -/
theorem SheetGrows.execution {start line offset : ℕ} {sheet sheet' : List (List Piece)}
    {es : List Edit} (h : SheetGrows line offset sheet es sheet') {inside : Bool}
    (hlays : Lays inside sheet) (above : List Text) (hline : line = start + above.length) :
    es.foldr (fun e p => Progress.step start p e) { lines := above ++ sheet.map rawText } =
      { lines := above ++ sheet'.map rawText, applied := es.reverse } := by
  induction h generalizing inside above with
  | nil line offset => rfl
  | @cons line offset ps es qs sheet fs sheet' hgrows _ ih =>
      obtain ⟨hreads, _, hrest⟩ := hlays
      have hbelow := ih hrest (above ++ [rawText ps]) (by simp [hline]; omega)
      simp only [List.append_assoc, List.singleton_append] at hbelow
      have hfirst :=
        hgrows.execution hreads [] rfl above (sheet'.map rawText) hline [] fs.reverse
      rw [List.foldr_append, List.map_cons, hbelow]
      simpa using hfirst

/-! ## The order of edits -/

/-- An edit stands before another one in the file. -/
def Precedes (a b : Edit) : Prop :=
  a.position.line < b.position.line ∨
    a.position.line = b.position.line ∧ a.position.column < b.position.column

theorem Grows.ordered {line offset n : ℕ} {ps qs : List Piece} {es : List Edit}
    (h : Grows line offset n ps es qs) :
    es.Pairwise Precedes ∧ ∀ e ∈ es, e.position.line = line ∧ n < e.position.column := by
  induction h with
  | nil n => simp
  | char _ ih =>
      refine ⟨ih.1, fun e he => ?_⟩
      have hplace := ih.2 e he
      push_cast at hplace
      omega
  | keep _ ih =>
      refine ⟨ih.1, fun e he => ?_⟩
      have hplace := ih.2 e he
      push_cast at hplace
      omega
  | @push n t ps e es qs hfits _ ih =>
      obtain ⟨hpairwise, hplaces⟩ := ih
      have hpos : 0 < t.render.length := by simp [OpenTag.render_eq]
      have hline : e.position.line = line := by rw [hfits.position]
      have hcolumn : e.position.column = n + 1 := by rw [hfits.position]
      refine ⟨List.pairwise_cons.mpr ⟨?_, hpairwise⟩, ?_⟩
      · intro f hf
        have hplace := hplaces f hf
        push_cast at hplace
        exact .inr ⟨by omega, by omega⟩
      · intro f hf
        rcases List.mem_cons.mp hf with rfl | hf
        · omega
        · have hplace := hplaces f hf
          push_cast at hplace
          omega

theorem SheetGrows.ordered {line offset : ℕ} {sheet sheet' : List (List Piece)}
    {es : List Edit} (h : SheetGrows line offset sheet es sheet') :
    es.Pairwise Precedes ∧ ∀ e ∈ es, line ≤ e.position.line := by
  induction h with
  | nil line offset => simp
  | @cons line offset ps es qs sheet fs sheet' hgrows _ ih =>
      obtain ⟨hpairwise, hplaces⟩ := hgrows.ordered
      refine ⟨List.pairwise_append.mpr ⟨hpairwise, ih.1, ?_⟩, ?_⟩
      · intro a ha b hb
        have hbelow := ih.2 b hb
        have hhere := (hplaces a ha).1
        push_cast at hbelow
        exact .inl (by omega)
      · intro e he
        rcases List.mem_append.mp he with he | he
        · have hhere := (hplaces e he).1
          omega
        · have hbelow := ih.2 e he
          push_cast at hbelow
          omega

/-- Two edits do not stand at one place. -/
def Apart (a b : Edit) : Prop :=
  a.position.line ≠ b.position.line ∨ a.position.column ≠ b.position.column

instance : Std.Symm Apart where
  symm a b h := by
    unfold Apart at h ⊢
    omega

/-- Edits in the order of the file are sorted by turning them around. -/
theorem bottomUp_eq_reverse {es : List Edit} (h : es.Pairwise Precedes) :
    bottomUp es = es.reverse := by
  have hsorted : (bottomUp es).Pairwise fun a b =>
      (decide (b.position.line < a.position.line) || (b.position.line == a.position.line &&
        decide (b.position.column ≤ a.position.column))) = true := by
    apply List.pairwise_mergeSort
    · intro a b c hab hbc
      simp only [Bool.or_eq_true, Bool.and_eq_true, decide_eq_true_eq, beq_iff_eq] at hab hbc ⊢
      omega
    · intro a b
      simp only [Bool.or_eq_true, Bool.and_eq_true, decide_eq_true_eq, beq_iff_eq]
      omega
  have hdistinct : ∀ a ∈ es, ∀ b ∈ es, a ≠ b → Apart a b := by
    intro a ha b hb hne
    have hapart : es.Pairwise Apart := by
      refine h.imp fun hab => ?_
      unfold Precedes at hab
      unfold Apart
      omega
    exact hapart.forall ha hb hne
  refine List.Perm.eq_of_pairwise ?_ hsorted ?_
    ((List.mergeSort_perm es _).trans (List.reverse_perm es).symm)
  · intro a b ha hb hab hba
    by_contra hne
    simp only [Bool.or_eq_true, Bool.and_eq_true, decide_eq_true_eq, beq_iff_eq] at hab hba
    have hapart := hdistinct a (List.mem_mergeSort.mp ha) b (List.mem_reverse.mp hb) hne
    unfold Apart at hapart
    omega
  · refine List.pairwise_reverse.mpr (h.imp fun hab => ?_)
    unfold Precedes at hab
    simp only [Bool.or_eq_true, Bool.and_eq_true, decide_eq_true_eq, beq_iff_eq]
    omega

/-! ## The revised file -/

theorem Grows.newline_not_mem {line offset n : ℕ} {ps qs : List Piece} {es : List Edit}
    (h : Grows line offset n ps es qs) (hline : '\n' ∉ rawText ps) : '\n' ∉ rawText qs := by
  induction h with
  | nil n => exact hline
  | char _ ih =>
      simp only [rawText_char, List.mem_cons, not_or] at hline ⊢
      exact ⟨hline.1, ih hline.2⟩
  | keep _ ih =>
      simp only [rawText_tag, List.mem_append, not_or] at hline ⊢
      exact ⟨hline.1, ih hline.2⟩
  | @push n t ps e es qs hfits _ ih =>
      have hname := hfits.plain.not_mem_name (by decide : isNameChar '\n' = false)
      have hvalue := hfits.plain.not_mem_value (by decide : isNameChar '\n' = false)
      have hadded : '\n' ∉ (added e.name e.value).render := by
        rw [added_render]
        simpa using ⟨hname, hvalue⟩
      simp only [rawText_tag, OpenTag.render_eq_opening, OpenTag.opening_push,
        OpenTag.closing_push, List.mem_append, not_or] at hline ⊢
      exact ⟨⟨⟨hline.1.1, hadded⟩, hline.1.2⟩, ih hline.2⟩

theorem SheetGrows.newline_not_mem {line offset : ℕ} {sheet sheet' : List (List Piece)}
    {es : List Edit} (h : SheetGrows line offset sheet es sheet')
    (hlines : ∀ text ∈ sheet.map rawText, '\n' ∉ text) :
    ∀ text ∈ sheet'.map rawText, '\n' ∉ text := by
  induction h with
  | nil line offset => exact hlines
  | cons hgrows _ ih =>
      rw [List.map_cons, List.forall_mem_cons] at hlines ⊢
      exact ⟨hgrows.newline_not_mem hlines.1, ih hlines.2⟩

theorem SheetGrows.length_eq {line offset : ℕ} {sheet sheet' : List (List Piece)}
    {es : List Edit} (h : SheetGrows line offset sheet es sheet') :
    sheet'.length = sheet.length := by
  induction h with
  | nil line offset => rfl
  | cons _ _ ih => rw [List.length_cons, List.length_cons, ih]

theorem sameNames_map_withLines (name : Text) (lines : List Text) (all : List Section) :
    sameNames (all.map (Section.withLines name lines)) all = true := by
  have hnames : (all.map (Section.withLines name lines)).map (·.name) = all.map (·.name) := by
    simp [Function.comp_def]
  simp only [sameNames, hnames, Bool.and_self, List.all_eq_true, List.contains_iff_mem]
  exact fun x hx => hx

section Revised

variable {source : Text} {template : Section} {offset : ℕ} {sheet sheet' : List (List Piece)}
  {es : List Edit}

/-- The template of a file after its sheet has grown. -/
theorem SheetGrows.sections_eq (h : SheetGrows template.startLine offset sheet es sheet')
    (htemplate : section? source "template" = some template)
    (hraw : sheet.map rawText = template.lines) (hlays : Lays false sheet) :
    let lines := sheet'.map rawText
    let code := replaceLines source template lines
    sections code = (sections source).map (Section.withLines "template".toList lines) ∧
      (section? code "template") = some { template with lines } := by
  have hlength : (sheet'.map rawText).length = template.lines.length := by
    rw [← hraw, List.length_map, List.length_map, h.length_eq]
  have hbreak : ∀ text ∈ sheet'.map rawText, '\n' ∉ text := by
    apply h.newline_not_mem
    rw [hraw]
    exact newline_not_mem_section htemplate
  have hbody : ∀ text ∈ sheet'.map rawText, closes? text ≠ some "template".toList := by
    apply closes?_of_map_closes? htemplate
    rw [h.closes?_eq hlays, hraw]
  refine ⟨sections_replaceLines htemplate hlength hbreak hbody, ?_⟩
  exact section?_replaceLines htemplate hlength hbreak hbody

/-- Revising a file makes all edits and reports nothing. -/
theorem SheetGrows.revise_eq (h : SheetGrows template.startLine offset sheet es sheet')
    (htemplate : section? source "template" = some template)
    (hraw : sheet.map rawText = template.lines) (hlays : Lays false sheet) (hne : es ≠ []) :
    revise source es =
      { code := replaceLines source template (sheet'.map rawText), applied := es.reverse } := by
  have hrun : (bottomUp es).foldl (Progress.step template.startLine)
      { lines := template.lines } = { lines := sheet'.map rawText, applied := es.reverse } := by
    rw [bottomUp_eq_reverse h.ordered.1, List.foldl_reverse, ← hraw]
    exact h.execution hlays [] rfl
  have hedits : es.isEmpty = false := by simpa using hne
  have happlied : es.reverse.isEmpty = false := by simpa using hne
  rw [revise]
  simp only [hedits, Bool.false_eq_true, if_false, htemplate, hrun, happlied,
    (h.sections_eq htemplate hraw hlays).1, sameNames_map_withLines, if_true]

end Revised

end MarkupIds.Sfc
