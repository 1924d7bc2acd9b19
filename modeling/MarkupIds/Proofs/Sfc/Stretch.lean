import MarkupIds.Proofs.Sfc.Growth
import MarkupIds.Proofs.Sfc.Site

/-!
# The comments of a line

Masking cuts a line into characters that are shown and comments that are blanked out. A tag that is
shown has no part in the comments around it.
-/

namespace MarkupIds.Sfc

/-! ## Stretches -/

/-- A piece of a line: a character that is shown, or a comment as far as it reaches on the line. -/
inductive Stretch where
  | shown (c : Char)
  | comment (text : Text)
deriving DecidableEq, Repr

namespace Stretch

def text : Stretch → Text
  | shown c => [c]
  | comment text => text

/-- What masking leaves of a piece. -/
def masked : Stretch → Text
  | shown c => [c]
  | comment text => text.map fun _ => ' '

def comment? : Stretch → Option Text
  | shown _ => none
  | comment text => some text

/-- The pieces of a line with one more character in the comment that they start with. -/
def lengthen (c : Char) : List Stretch → List Stretch
  | comment text :: rest => comment (c :: text) :: rest
  | rest => comment [c] :: rest

@[simp] theorem flatMap_text_lengthen (c : Char) (pieces : List Stretch) :
    (lengthen c pieces).flatMap text = c :: pieces.flatMap text := by
  fun_cases lengthen c pieces <;> rfl

@[simp] theorem flatMap_masked_lengthen (c : Char) (pieces : List Stretch) :
    (lengthen c pieces).flatMap masked = ' ' :: pieces.flatMap masked := by
  fun_cases lengthen c pieces <;> rfl

theorem lengthen_append (c : Char) {pieces : List Stretch} (h : pieces ≠ [])
    (rest : List Stretch) : lengthen c (pieces ++ rest) = lengthen c pieces ++ rest := by
  cases pieces with
  | nil => exact absurd rfl h
  | cons piece pieces => cases piece <;> rfl

end Stretch

/-- The pieces of a line. The flag says whether it starts inside a comment. -/
def stretches : (inside : Bool) → Text → List Stretch
  | _, [] => []
  | true, '-' :: '-' :: '>' :: cs => .comment ['-', '-', '>'] :: stretches false cs
  | true, c :: cs => Stretch.lengthen c (stretches true cs)
  | false, c :: cs =>
    if c == '<' && Text.startsWith ['!', '-', '-'] cs then Stretch.lengthen c (stretches true cs)
    else .shown c :: stretches false cs

/-- The pieces make up the line. -/
theorem flatMap_text_stretches (inside : Bool) (line : Text) :
    (stretches inside line).flatMap Stretch.text = line := by
  fun_induction stretches inside line <;> simp_all [Stretch.text]

/-- Masking shows what is no comment. -/
theorem flatMap_masked_stretches (inside : Bool) (line : Text) :
    (stretches inside line).flatMap Stretch.masked = (maskLine inside line).1 := by
  fun_induction stretches inside line with
  | case1 inside => rfl
  | case2 cs ih => simp [maskLine, Stretch.masked, ih]
  | case3 c cs hmark ih =>
      rw [maskLine_inside (ne_closing hmark), Stretch.flatMap_masked_lengthen, ih]
  | case4 c cs hopen ih =>
      rw [maskLine_opening hopen, Stretch.flatMap_masked_lengthen, ih]
  | case5 c cs hclosed ih =>
      rw [maskLine_outside (by simpa using hclosed), List.flatMap_cons, ih]
      rfl

theorem stretches_inside {c : Char} {cs : Text}
    (h : ∀ rest, c :: cs ≠ '-' :: '-' :: '>' :: rest) :
    stretches true (c :: cs) = Stretch.lengthen c (stretches true cs) := by
  rw [stretches]
  intro rest hc hcs
  exact h rest (by rw [hc, hcs])

theorem stretches_ne_nil {inside : Bool} {line : Text} (h : line ≠ []) :
    stretches inside line ≠ [] := by
  intro hnil
  have hline := flatMap_text_stretches inside line
  rw [hnil] at hline
  exact h hline.symm

/-- An opening bracket behind a text that ends outside of comments starts another piece. -/
theorem stretches_append_bracket {inside : Bool} {front : Text}
    (h : (maskLine inside front).2 = false) (rest : Text) :
    stretches inside (front ++ '<' :: rest) =
      stretches inside front ++ stretches false ('<' :: rest) := by
  fun_induction stretches inside front with
  | case1 inside =>
      obtain rfl : inside = false := h
      rfl
  | case2 cs ih =>
      rw [maskLine] at h
      rw [List.cons_append, List.cons_append, List.cons_append, stretches, ih h, List.cons_append]
  | case3 c cs hmark ih =>
      have hinside := ne_closing hmark
      rw [maskLine_inside hinside] at h
      have hne : cs ≠ [] := by
        rintro rfl
        exact Bool.noConfusion h
      rw [List.cons_append, stretches_inside (not_closing_append hinside rest), ih h,
        Stretch.lengthen_append c (stretches_ne_nil hne)]
  | case4 c cs hopen ih =>
      rw [maskLine_opening hopen] at h
      have hne : cs ≠ [] := by
        rintro rfl
        exact Bool.noConfusion h
      rw [List.cons_append, stretches, if_pos, ih h,
        Stretch.lengthen_append c (stretches_ne_nil hne)]
      rwa [Text.startsWith_append_cons (by decide)]
  | case5 c cs hclosed ih =>
      rw [maskLine_outside (by simpa using hclosed)] at h
      rw [List.cons_append, stretches, if_neg, ih h, List.cons_append]
      rwa [Text.startsWith_append_cons (by decide)]

/-- Text that masking leaves alone is shown character by character. -/
theorem stretches_shown {front rest : Text} (h : front <+: (maskLine false (front ++ rest)).1) :
    stretches false (front ++ rest) = front.map .shown ++ stretches false rest := by
  induction front with
  | nil => rfl
  | cons c front ih =>
      rw [List.cons_append] at h ⊢
      obtain ⟨hclosed, hfront⟩ := not_opening_of_shown h
      rw [stretches, if_neg (by simp [hclosed]), ih hfront]
      rfl

/-! ## Comments -/

/-- The comments of a line as far as they reach on it, and whether one is open behind it. -/
def comments (inside : Bool) (line : Text) : List Text × Bool :=
  ((stretches inside line).filterMap Stretch.comment?, (maskLine inside line).2)

theorem comments_snd (inside : Bool) (line : Text) :
    (comments inside line).2 = (maskLine inside line).2 := rfl

/-- A tag that is shown has no part in the comments of its line. -/
theorem comments_tag {t : OpenTag} (ht : t.Unmarked) {inside : Bool} {front : Text}
    (hfront : (maskLine inside front).2 = false) (rest : Text) :
    comments inside (front ++ (t.render ++ rest)) =
      ((comments inside front).1 ++ (comments false rest).1, (comments false rest).2) := by
  have hshown : t.render <+: (maskLine false (t.render ++ rest)).1 := by
    rw [OpenTag.maskLine_render ht]
    exact List.prefix_append _ _
  obtain ⟨body, hbody⟩ : ∃ body, t.render = '<' :: body := ⟨_, t.render_eq⟩
  have hpieces : stretches inside (front ++ (t.render ++ rest)) =
      stretches inside front ++ (t.render.map .shown ++ stretches false rest) := by
    rw [← stretches_shown hshown, hbody, List.cons_append]
    exact stretches_append_bracket hfront _
  have hflag : (maskLine inside (front ++ (t.render ++ rest))).2 = (maskLine false rest).2 := by
    rw [OpenTag.maskLine_append_render, hfront, OpenTag.maskLine_render ht]
  have hnone : (t.render.map Stretch.shown).filterMap Stretch.comment? = [] := by
    simp [List.filterMap_map, Function.comp_def, Stretch.comment?]
  rw [comments, hpieces, hflag, List.filterMap_append, List.filterMap_append, hnone]
  rfl

/-- The comments of each line of a template. -/
def commentLines : (inside : Bool) → List Text → List (List Text × Bool)
  | _, [] => []
  | inside, line :: lines =>
    comments inside line :: commentLines (maskLine inside line).2 lines

theorem getElem?_commentLines (inside : Bool) (lines : List Text) (i : ℕ) :
    (commentLines inside lines)[i]? =
      lines[i]?.map (comments (openBehind inside (lines.take i))) := by
  induction lines generalizing inside i with
  | nil => rfl
  | cons line lines ih =>
      cases i with
      | zero => rfl
      | succ i => exact ih (maskLine inside line).2 i

/-- Masking blanks out the comments that are found on line `i`, and shows all else of it. The flag
says whether a comment is open behind the line. -/
def BlanksOut (lines : List Text) (i : ℕ) (found : List Text × Bool) : Prop :=
  ∃ pieces : List Stretch, lines[i]? = some (pieces.flatMap Stretch.text) ∧
    (maskLines false lines)[i]? = some (pieces.flatMap Stretch.masked, found.2) ∧
    pieces.filterMap Stretch.comment? = found.1

/-- The comments of the lines are what masking blanks out. -/
theorem blanksOut_of_commentLines {lines : List Text} {i : ℕ} {found : List Text × Bool}
    (h : (commentLines false lines)[i]? = some found) : BlanksOut lines i found := by
  rw [getElem?_commentLines] at h
  obtain ⟨line, hline, rfl⟩ := Option.map_eq_some_iff.mp h
  refine ⟨stretches (openBehind false (lines.take i)) line, ?_, ?_, rfl⟩
  · rw [flatMap_text_stretches, hline]
  · rw [getElem?_maskLines, hline, flatMap_masked_stretches]
    rfl

theorem length_commentLines (inside : Bool) (lines : List Text) :
    (commentLines inside lines).length = lines.length := by
  fun_induction commentLines inside lines <;> simp_all

/-- Lines with the same comments leave comments open at the same places. -/
theorem openBehind_congr {inside : Bool} {lines lines' : List Text}
    (h : commentLines inside lines' = commentLines inside lines) (i : ℕ) :
    openBehind inside (lines'.take i) = openBehind inside (lines.take i) := by
  induction i generalizing inside lines lines' with
  | zero => rfl
  | succ i ih =>
      cases lines with
      | nil =>
          obtain rfl : lines' = [] := by
            rw [← List.length_eq_zero_iff, ← length_commentLines inside, h]
            rfl
          rfl
      | cons line lines =>
          cases lines' with
          | nil => exact nomatch h
          | cons line' lines' =>
              obtain ⟨hline, hlines⟩ := List.cons_eq_cons.mp h
              have hflag := congrArg Prod.snd hline
              rw [comments_snd, comments_snd] at hflag
              rw [hflag] at hlines
              have hbelow := ih hlines
              simpa only [openBehind, List.take_succ_cons, List.foldl_cons, hflag] using hbelow

/-- A line may be put in place of one with the same comments. -/
theorem commentLines_set {inside : Bool} {lines : List Text} {i : ℕ} {line line' : Text}
    (hline : lines[i]? = some line)
    (h : comments (openBehind inside (lines.take i)) line' =
      comments (openBehind inside (lines.take i)) line) :
    commentLines inside (lines.set i line') = commentLines inside lines := by
  induction lines generalizing inside i with
  | nil => rfl
  | cons first lines ih =>
      cases i with
      | zero =>
          obtain rfl : first = line := Option.some.inj hline
          change comments inside line' = comments inside first at h
          have hflag := congrArg Prod.snd h
          rw [comments_snd, comments_snd] at hflag
          rw [List.set_cons_zero, commentLines, commentLines, hflag, h]
      | succ i => exact congrArg (_ :: ·) (ih hline h)

end MarkupIds.Sfc
