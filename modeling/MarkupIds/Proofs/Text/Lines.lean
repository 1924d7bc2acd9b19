import MarkupIds.Text.Blank
import Mathlib.Data.List.Infix

/-!
# Lines and line feeds

The lines of a text may end in any of several characters. A reader that cuts only behind line feeds
gets the same lines back from the joined text if every line but the last ends in a line feed, and
otherwise finds some of them run together.
-/

namespace MarkupIds.Text

/-! ## Lines with their ends -/

/-- A line has characters, and a line feed can only be the last of them. -/
def IsLine (line : Text) : Prop :=
  line ≠ [] ∧ '\n' ∉ line.dropLast

theorem IsLine.cons {line : Text} (h : IsLine line) {c : Char} (hc : c ≠ '\n') :
    IsLine (c :: line) := by
  refine ⟨List.cons_ne_nil c line, ?_⟩
  rw [List.dropLast_cons_of_ne_nil h.1]
  simpa [hc.symm] using h.2

/-- Lines one behind the other: all but the last have an end. -/
structure AreLines (lines : List Text) : Prop where
  isLine : ∀ line ∈ lines, IsLine line
  ended : ∀ line ∈ lines.dropLast, ∃ c ∈ line.getLast?, isLineEnd c = true

theorem AreLines.of_append {front lines : List Text} (h : AreLines (front ++ lines)) :
    AreLines lines := by
  refine ⟨fun line hline => h.isLine line (List.mem_append_right front hline), ?_⟩
  intro line hline
  have hne : lines ≠ [] := by
    rintro rfl
    simp at hline
  apply h.ended
  rw [List.dropLast_append_of_ne_nil hne]
  exact List.mem_append_right front hline

theorem AreLines.tail {line : Text} {lines : List Text} (h : AreLines (line :: lines)) :
    AreLines lines :=
  @AreLines.of_append [line] lines h

theorem AreLines.cons {line : Text} {lines : List Text} (hlines : AreLines lines)
    (hline : IsLine line) (hend : ∃ c ∈ line.getLast?, isLineEnd c = true) :
    AreLines (line :: lines) := by
  refine ⟨by simpa using ⟨hline, hlines.isLine⟩, ?_⟩
  cases lines with
  | nil => simp
  | cons next lines =>
      simp only [List.dropLast_cons_cons, List.mem_cons, forall_eq_or_imp]
      exact ⟨hend, hlines.ended⟩

/-- A character that ends no line runs on into the line that follows. -/
theorem AreLines.run_on {c : Char} {line : Text} {lines : List Text} (hc : c ≠ '\n')
    (h : AreLines (line :: lines)) : AreLines ((c :: line) :: lines) := by
  have hline := h.isLine line List.mem_cons_self
  refine ⟨?_, ?_⟩
  · simp only [List.mem_cons, forall_eq_or_imp]
    exact ⟨hline.cons hc, fun l hl => h.isLine l (List.mem_cons_of_mem line hl)⟩
  · have hended := h.ended
    cases lines with
    | nil => simp
    | cons next lines =>
        simp only [List.dropLast_cons_cons, List.mem_cons, forall_eq_or_imp] at hended ⊢
        rwa [List.getLast?_cons_of_ne_nil hline.1]

theorem flatten_linesWithEnds (t : Text) : (linesWithEnds t).flatten = t := by
  fun_induction linesWithEnds t with
  | case1 => rfl
  | case2 cs ih => simp [ih]
  | case3 c cs _ _ ih => simp [ih]
  | case4 c cs => simp_all
  | case5 c d ds => simp_all
  | case6 c d ds => simp_all

theorem areLines_linesWithEnds (t : Text) : AreLines (linesWithEnds t) := by
  fun_induction linesWithEnds t with
  | case1 => exact ⟨by simp, by simp⟩
  | case2 cs ih => exact ih.cons ⟨by simp, by simp⟩ ⟨'\n', rfl, rfl⟩
  | case3 c cs _ hend ih => exact ih.cons ⟨by simp, by simp⟩ ⟨c, rfl, hend⟩
  | case4 c hc => exact ⟨by simp [IsLine], by simp⟩
  | case5 c hc d ds _ hnone ih =>
      rw [hnone]
      exact ⟨by simp [IsLine], by simp⟩
  | case6 c hc d ds line lines _ hlines ih =>
      rw [hlines] at ih ⊢
      refine ih.run_on ?_
      rintro rfl
      exact hc rfl

/-! ## Pieces behind line feeds -/

/-- The pieces of a text, each with the line feed that ends it. -/
def feedLines : Text → List Text
  | [] => []
  | c :: cs =>
    if c = '\n' then [c] :: feedLines cs
    else match feedLines cs with
      | [] => [[c]]
      | line :: lines => (c :: line) :: lines

theorem flatten_feedLines (t : Text) : (feedLines t).flatten = t := by
  fun_induction feedLines t with
  | case1 => rfl
  | case2 cs ih => simp [ih]
  | case3 c cs hc hnone ih => simp_all
  | case4 c cs hc line lines hlines ih => simp_all

theorem feedLines_eq_nil_iff {t : Text} : feedLines t = [] ↔ t = [] := by
  constructor
  · intro h
    rw [← flatten_feedLines t, h, List.flatten_nil]
  · rintro rfl
    rfl

/-- A line feed is where a piece ends. -/
theorem feedLines_append_feed (front t : Text) :
    feedLines (front ++ '\n' :: t) = feedLines (front ++ ['\n']) ++ feedLines t := by
  induction front with
  | nil => simp [feedLines]
  | cons c front ih =>
      simp only [List.cons_append, feedLines, ih]
      split
      · rfl
      · cases hfront : feedLines (front ++ ['\n']) with
        | nil => simp [feedLines_eq_nil_iff] at hfront
        | cons piece pieces => rfl

theorem feedLines_append_cons {front : Text} (h : '\n' ∉ front) (t : Text) :
    feedLines (front ++ '\n' :: t) = (front ++ ['\n']) :: feedLines t := by
  induction front with
  | nil => simp [feedLines]
  | cons c front ih =>
      simp only [List.mem_cons, not_or] at h
      rw [List.cons_append, feedLines, if_neg (Ne.symm h.1), ih h.2]
      rfl

/-- Characters that are no line feeds run on into the piece that follows. -/
theorem feedLines_append {front : Text} (hne : front ≠ []) (h : '\n' ∉ front) (t : Text) :
    feedLines (front ++ t) =
      (front ++ (feedLines t).head?.getD []) :: (feedLines t).tail := by
  induction front with
  | nil => exact absurd rfl hne
  | cons c front ih =>
      simp only [List.mem_cons, not_or] at h
      rw [List.cons_append, feedLines, if_neg (Ne.symm h.1)]
      cases front with
      | nil => cases hlines : feedLines t <;> simp [hlines]
      | cons d front =>
          rw [ih (by simp) h.2]
          rfl

/-- A line that ends in a line feed. -/
def Fed (line : Text) : Prop :=
  line.getLast? = some '\n'

instance (line : Text) : Decidable (Fed line) :=
  inferInstanceAs (Decidable (line.getLast? = some '\n'))

theorem IsLine.feedLines_append {line : Text} (h : IsLine line) (hfed : Fed line) (t : Text) :
    feedLines (line ++ t) = line :: feedLines t := by
  obtain ⟨front, rfl⟩ := List.getLast?_eq_some_iff.mp hfed
  have hfront : '\n' ∉ front := by simpa using h.2
  rw [List.append_assoc]
  exact feedLines_append_cons hfront t

theorem IsLine.not_mem {line : Text} (h : IsLine line) (hopen : ¬ Fed line) : '\n' ∉ line := by
  obtain ⟨front, c, rfl⟩ := List.eq_nil_or_concat line |>.resolve_left h.1
  have hc : '\n' ≠ c := by
    rintro rfl
    exact hopen (by simp [Fed])
  have hfront : '\n' ∉ front := by simpa using h.2
  simp [hfront, hc]

/-- The first piece holds the first line. -/
theorem IsLine.exists_feedLines_append {line : Text} (h : IsLine line) (t : Text) :
    ∃ back pieces, feedLines (line ++ t) = (line ++ back) :: pieces ∧
      back ++ pieces.flatten = t := by
  by_cases hfed : Fed line
  · exact ⟨[], feedLines t, by simp [h.feedLines_append hfed], by simp [flatten_feedLines]⟩
  · refine ⟨_, _, Text.feedLines_append h.1 (h.not_mem hfed) t, ?_⟩
    have hflatten := flatten_feedLines t
    cases hpieces : feedLines t with
    | nil => simpa [hpieces] using hflatten
    | cons piece pieces => simpa [hpieces] using hflatten

/-- A line without a line feed runs on into what follows. -/
theorem IsLine.feedLines_run_on {line : Text} (h : IsLine line) (hopen : ¬ Fed line) {t : Text}
    (ht : t ≠ []) :
    ∃ piece pieces, feedLines t = piece :: pieces ∧ piece ≠ [] ∧
      feedLines (line ++ t) = (line ++ piece) :: pieces := by
  obtain ⟨c, t, rfl⟩ := List.exists_cons_of_ne_nil ht
  have hsingle : IsLine [c] := ⟨by simp, by simp⟩
  obtain ⟨back, pieces, hpieces, _⟩ := hsingle.exists_feedLines_append t
  rw [List.singleton_append] at hpieces
  refine ⟨[c] ++ back, pieces, hpieces, by simp, ?_⟩
  rw [Text.feedLines_append h.1 (h.not_mem hopen), hpieces]
  rfl

theorem feedLines_flatten {lines : List Text} (h : ∀ line ∈ lines, IsLine line)
    (hfed : ∀ line ∈ lines.dropLast, Fed line) : feedLines lines.flatten = lines := by
  induction lines with
  | nil => rfl
  | cons line lines ih =>
      simp only [List.mem_cons, forall_eq_or_imp] at h
      cases lines with
      | nil =>
          by_cases hline : Fed line
          · simpa [feedLines] using h.1.feedLines_append hline []
          · simpa [feedLines] using Text.feedLines_append h.1.1 (h.1.not_mem hline) []
      | cons next lines =>
          simp only [List.dropLast_cons_cons, List.mem_cons, forall_eq_or_imp] at hfed
          rw [List.flatten_cons, h.1.feedLines_append hfed.1, ih h.2 hfed.2]

end MarkupIds.Text
