import MarkupIds.Proofs.Sfc.Comment
import MarkupIds.Proofs.Sfc.FullName
import MarkupIds.Sfc.Reader

/-!
# Layouts of template lines

A line is laid out as characters and opening tags, each character beside what masking leaves of
it. The elements of a line are read off its layout.
-/

namespace MarkupIds.Sfc

/-- A part of a line: a character and what masking leaves of it, or an opening tag. -/
inductive Piece where
  | char (raw shown : Char)
  | tag (t : OpenTag)

def Piece.raw : Piece → Text
  | .char c _ => [c]
  | .tag t => t.render

def Piece.shown : Piece → Text
  | .char _ c => [c]
  | .tag t => t.render

/-- The line as it is written. -/
def rawText (ps : List Piece) : Text :=
  ps.flatMap Piece.raw

/-- The line after masking. -/
def shownText (ps : List Piece) : Text :=
  ps.flatMap Piece.shown

@[simp] theorem rawText_nil : rawText [] = [] := rfl

@[simp] theorem rawText_char (c d : Char) (ps : List Piece) :
    rawText (.char c d :: ps) = c :: rawText ps := rfl

@[simp] theorem rawText_tag (t : OpenTag) (ps : List Piece) :
    rawText (.tag t :: ps) = t.render ++ rawText ps := rfl

@[simp] theorem shownText_nil : shownText [] = [] := rfl

@[simp] theorem shownText_char (c d : Char) (ps : List Piece) :
    shownText (.char c d :: ps) = d :: shownText ps := rfl

@[simp] theorem shownText_tag (t : OpenTag) (ps : List Piece) :
    shownText (.tag t :: ps) = t.render ++ shownText ps := rfl

/-- The tags of a layout are sound and have full names only, and no other tag is read on it. -/
def Reads : List Piece → Prop
  | [] => True
  | .char _ c :: ps => openTag? (c :: shownText ps) = none ∧ Reads ps
  | .tag t :: ps => t.Sound ∧ (∀ w ∈ t.attributes, isFullName w.name = true) ∧ Reads ps

/-- A tag of a masked line in which masking has changed nothing, with full names only. -/
structure Regular (line : Text) (column : ℕ) (t : OpenTag) : Prop where
  unmasked : t.render <+: line.drop column
  names : ∀ w ∈ t.attributes, isFullName w.name = true

instance (line : Text) (column : ℕ) (t : OpenTag) : Decidable (Regular line column t) :=
  decidable_of_iff
    (t.render <+: line.drop column ∧ ∀ w ∈ t.attributes, isFullName w.name = true)
    ⟨fun h => ⟨h.1, h.2⟩, fun h => ⟨h.unmasked, h.names⟩⟩

/-! ## Tags -/

/-- The tags of a layout from column `n` on, each with its column and what follows it. -/
def marks : ℕ → List Piece → List (ℕ × OpenTag × Text)
  | _, [] => []
  | n, .char _ _ :: ps => marks (n + 1) ps
  | n, .tag t :: ps => (n, t, shownText ps) :: marks (n + t.render.length) ps

theorem openTags_eq_marks {ps : List Piece} (h : Reads ps) (n : ℕ) {fuel : ℕ}
    (hfuel : (shownText ps).length < fuel) : openTags fuel n (shownText ps) = marks n ps := by
  induction ps generalizing n fuel with
  | nil =>
      cases fuel with
      | zero => rfl
      | succ fuel => rfl
  | cons p ps ih =>
      cases fuel with
      | zero => exact absurd hfuel (by simp)
      | succ fuel =>
          cases p with
          | char c d =>
              obtain ⟨hnone, hrest⟩ := h
              rw [shownText_char, openTags.eq_def]
              simp only [hnone]
              exact ih hrest (n + 1) (by simpa using hfuel)
          | tag t =>
              obtain ⟨hsound, _, hrest⟩ := h
              have hpos : 0 < t.render.length := by simp [OpenTag.render_eq]
              rw [shownText_tag, openTags.eq_def]
              simp only [openTag?_render hsound, List.length_append, Nat.add_sub_cancel_right]
              rw [ih hrest]
              · rfl
              · simp only [shownText_tag, List.length_append] at hfuel
                omega

/-- Every line with regular tags has a layout. -/
theorem exists_layout (front line masked : Text) (hlength : line.length = masked.length)
    {fuel : ℕ} (hfuel : masked.length < fuel)
    (hregular : ∀ m ∈ openTags fuel front.length masked, Regular (front ++ line) m.1 m.2.1) :
    ∃ ps, Reads ps ∧ rawText ps = line ∧ shownText ps = masked := by
  induction fuel generalizing front line masked with
  | zero => exact absurd hfuel (by simp)
  | succ fuel ih =>
      rw [openTags.eq_def] at hregular
      cases hread : openTag? masked with
      | some found =>
          obtain ⟨t, after⟩ := found
          simp only [hread, List.forall_mem_cons] at hregular
          obtain ⟨⟨⟨tail, htail⟩, hnames⟩, hrest⟩ := hregular
          obtain ⟨hsound, rfl⟩ := openTag?_sound hread
          rw [List.drop_left] at htail
          subst htail
          have hpos : 0 < t.render.length := by simp [OpenTag.render_eq]
          simp only [List.length_append] at hlength hfuel hrest
          obtain ⟨ps, hps, rfl, rfl⟩ := ih (front ++ t.render) tail after
            (by omega) (by omega) (by simpa using hrest)
          exact ⟨.tag t :: ps, ⟨hsound, hnames, hps⟩, rfl, rfl⟩
      | none =>
          cases masked with
          | nil =>
              obtain rfl : line = [] := by simpa using hlength
              exact ⟨[], trivial, rfl, rfl⟩
          | cons d masked =>
              cases line with
              | nil => exact absurd hlength (by simp)
              | cons c line =>
                  simp only [hread] at hregular
                  obtain ⟨ps, hps, rfl, rfl⟩ := ih (front ++ [c]) line masked
                    (by simpa using hlength) (by simpa using hfuel)
                    (by simpa using hregular)
                  exact ⟨.char c d :: ps, ⟨hread, hps⟩, rfl, rfl⟩

/-! ## Elements -/

/-- The element of a tag. -/
def tagElement (line offset column : ℕ) (t : OpenTag) (after : Text) : Element where
  tag := t.name
  attributes := readAttributes t.attributeText
  content := content? t.name after
  position := some ⟨line, column + 1, offset + column⟩
  framework := some .vue

/-- The elements of a layout from column `n` on. -/
def elementsOf (line offset : ℕ) : ℕ → List Piece → List Element
  | _, [] => []
  | n, .char _ _ :: ps => elementsOf line offset (n + 1) ps
  | n, .tag t :: ps =>
    (if t.selfClosing then [] else [tagElement line offset n t (shownText ps)]) ++
      elementsOf line offset (n + t.render.length) ps

theorem elementsOf_eq (line offset n : ℕ) (ps : List Piece) :
    elementsOf line offset n ps = ((marks n ps).filter (!·.2.1.selfClosing)).map
      fun (column, t, after) => tagElement line offset column t after := by
  induction ps generalizing n with
  | nil => rfl
  | cons p ps ih =>
      cases p with
      | char c d => exact ih (n + 1)
      | tag t =>
          rw [elementsOf, marks, ih]
          cases hself : t.selfClosing <;> simp [hself]

theorem lineElements_eq {ps : List Piece} (h : Reads ps) (line offset : ℕ) :
    lineElements line offset (shownText ps) = elementsOf line offset 0 ps := by
  rw [lineElements, openTags_eq_marks h 0 (by omega), elementsOf_eq]
  rfl

/-! ## Sheets of lines -/

/-- Layouts of lines one below the other, with comments carried from line to line. -/
def Lays : Bool → List (List Piece) → Prop
  | _, [] => True
  | inside, ps :: sheet =>
    Reads ps ∧ (maskLine inside (rawText ps)).1 = shownText ps ∧
      Lays (maskLine inside (rawText ps)).2 sheet

/-- The tags of masked lines, each beside its line, are regular. -/
def RegularLines (inside : Bool) (lines : List Text) : Prop :=
  ∀ p ∈ lines.zip ((maskLines inside lines).map (·.1)),
    ∀ m ∈ openTags (p.2.length + 1) 0 p.2, Regular p.1 m.1 m.2.1

instance (inside : Bool) (lines : List Text) : Decidable (RegularLines inside lines) :=
  inferInstanceAs (Decidable (∀ p ∈ lines.zip ((maskLines inside lines).map (·.1)),
    ∀ m ∈ openTags (p.2.length + 1) 0 p.2, Regular p.1 m.1 m.2.1))

/-- Lines with regular tags have layouts. -/
theorem exists_sheet (inside : Bool) (lines : List Text) (h : RegularLines inside lines) :
    ∃ sheet, Lays inside sheet ∧ sheet.map rawText = lines := by
  induction lines generalizing inside with
  | nil => exact ⟨[], trivial, rfl⟩
  | cons line lines ih =>
      simp only [RegularLines, maskLines, List.map_cons, List.zip_cons_cons,
        List.forall_mem_cons] at h
      obtain ⟨hline, hlines⟩ := h
      obtain ⟨ps, hreads, hraw, hshown⟩ := exists_layout [] line (maskLine inside line).1
        (length_maskLine inside line).symm (Nat.lt_succ_self _) hline
      obtain ⟨sheet, hlays, hsheet⟩ := ih (maskLine inside line).2 hlines
      subst hraw
      exact ⟨ps :: sheet, ⟨hreads, hshown.symm, hlays⟩, by rw [List.map_cons, hsheet]⟩

theorem Lays.maskLines_eq {inside : Bool} {sheet : List (List Piece)} (h : Lays inside sheet) :
    (maskLines inside (sheet.map rawText)).map (·.1) = sheet.map shownText := by
  induction sheet generalizing inside with
  | nil => rfl
  | cons ps sheet ih =>
      obtain ⟨_, hmask, hrest⟩ := h
      simp only [List.map_cons, maskLines, hmask, ih hrest]

/-- The elements of a sheet from a line on. -/
def sheetElements : (line offset : ℕ) → List (List Piece) → List Element
  | _, _, [] => []
  | line, offset, ps :: sheet =>
    elementsOf line offset 0 ps ++
      sheetElements (line + 1) (offset + (shownText ps).length + 1) sheet

theorem Lays.elementsFrom_eq {inside : Bool} {sheet : List (List Piece)} (h : Lays inside sheet)
    (line offset : ℕ) :
    elementsFrom line offset (sheet.map shownText) = sheetElements line offset sheet := by
  induction sheet generalizing inside line offset with
  | nil => rfl
  | cons ps sheet ih =>
      obtain ⟨hreads, _, hrest⟩ := h
      rw [List.map_cons, elementsFrom, sheetElements, lineElements_eq hreads, ih hrest]

end MarkupIds.Sfc
