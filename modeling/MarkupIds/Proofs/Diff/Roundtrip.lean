import MarkupIds.Engine
import MarkupIds.Proofs.Diff.Hunks

/-!
# Diffs that are read back

A diff is empty for texts that agree. Otherwise it leads from one text to the other for a reader
that tells its lines apart, and the reader does so exactly if every line that is shown, save the
last, ends in a line feed. Lines keep their own ends in a diff, so a line that ends otherwise, or a
last line without an end, runs into the line behind it.
-/

namespace MarkupIds

namespace Diff

open Reader (Reads)

/-! ## What a diff is made of -/

/-- The lines that name the files. -/
def header (path : Text) : Text :=
  "--- a/".toList ++ path ++ "\n+++ b/".toList ++ path ++ ['\n']

/-- The lines of the hunks, each with its own end. -/
def shown (n : ℕ) (old new : Text) : List Text :=
  if old = new then []
  else
    let as := Text.linesWithEnds old
    let bs := Text.linesWithEnds new
    (hunks n (steps as bs)).flatMap (hunkLines as bs)

theorem linesWithEnds_injective : Function.Injective Text.linesWithEnds := by
  intro t u h
  rw [← Text.flatten_linesWithEnds t, h, Text.flatten_linesWithEnds]

theorem shown_reads (n : ℕ) {old new : Text} (hne : old ≠ new) :
    Reads ⟨0, 0, 0, 0, Text.linesWithEnds old⟩ (shown n old new) (Text.linesWithEnds new) := by
  rw [shown, if_neg hne]
  exact hunks_reads n (linesWithEnds_injective.ne hne)

theorem unified_self (n : ℕ) (path old : Text) : unified n path old old = [] := by
  simp [unified]

theorem unified_of_ne (n : ℕ) (path : Text) {old new : Text} (hne : old ≠ new) :
    unified n path old new = header path ++ (shown n old new).flatten := by
  have hsome : hunks n (steps (Text.linesWithEnds old) (Text.linesWithEnds new)) ≠ [] := by
    intro hnone
    have hrun := (shown_reads n hne).run?
    rw [shown, if_neg hne] at hrun
    simp only [hnone, List.flatMap_nil, Reader.run?, Text.flatten_linesWithEnds, and_self, if_true,
      Option.some.injEq] at hrun
    exact hne hrun
  rw [unified, if_neg (by simpa using hne), shown, if_neg hne]
  dsimp only
  split
  · contradiction
  · rfl

/-! ## The header -/

theorem header_append (path t : Text) :
    header path ++ t =
      "--- a/".toList ++ path ++ '\n' :: ("+++ b/".toList ++ path ++ '\n' :: t) := by
  have hbreak : "\n+++ b/".toList = '\n' :: "+++ b/".toList := rfl
  unfold header
  rw [hbreak]
  simp only [List.append_assoc, List.cons_append, List.nil_append]

theorem header_append_ne_nil (path t : Text) : header path ++ t ≠ [] := by
  rw [header_append]
  exact List.append_ne_nil_of_right_ne_nil _ (List.cons_ne_nil _ _)

theorem patched?_header {path : Text} (h : '\n' ∉ path) (olds : List Text) (t : Text) :
    patched? olds (header path ++ t) = Reader.run? ⟨0, 0, 0, 0, olds⟩ (Text.feedLines t) := by
  have hold : '\n' ∉ "--- a/".toList ++ path := by simp [h]
  have hnew : '\n' ∉ "+++ b/".toList ++ path := by simp [h]
  rw [patched?, header_append, Text.feedLines_append_cons hold, Text.feedLines_append_cons hnew]
  rfl

/-- The header of a path with a line feed is not read: either its second line stands where a hunk is
due, or hunks in the path come twice. -/
theorem patched?_header_feed {path : Text} (h : '\n' ∈ path) (olds : List Text) (t : Text) :
    patched? olds (header path ++ t) = none := by
  obtain ⟨front, back, rfl, hfront⟩ := List.eq_append_cons_of_mem h
  have hold : '\n' ∉ "--- a/".toList ++ front := by simp [hfront]
  have hnew : '\n' ∉ "+++ b/".toList ++ front := by simp [hfront]
  obtain ⟨q, qs, hq⟩ : ∃ q qs, Text.feedLines (back ++ ['\n']) = q :: qs := by
    refine List.exists_cons_of_ne_nil ?_
    simp [Text.feedLines_eq_nil_iff]
  have hpath (mark u : Text) (hmark : '\n' ∉ mark ++ front) :
      Text.feedLines (mark ++ (front ++ '\n' :: back) ++ '\n' :: u) =
        (mark ++ front ++ ['\n']) :: q :: (qs ++ Text.feedLines u) := by
    rw [← List.append_assoc, List.append_assoc, List.cons_append,
      Text.feedLines_append_cons hmark, Text.feedLines_append_feed, hq, List.cons_append]
  rw [patched?, header_append, hpath _ _ hold, hpath _ _ hnew]
  dsimp only
  split
  · cases qs with
    | nil => exact Reader.run?_cons_eq_none (Reader.next?_eq_none (by decide) _) _
    | cons head qs =>
        have htwice := @Reader.run?_head_twice ⟨0, 0, 0, 0, olds⟩ ⟨rfl, rfl⟩ head
          (qs ++ ["+++ b/".toList ++ front ++ ['\n'], q]) (qs ++ Text.feedLines t)
        simpa only [List.append_assoc, List.cons_append, List.nil_append] using htwice
  · rfl

/-! ## The hunks -/

theorem isLine_shown (n : ℕ) {old new : Text} (hne : old ≠ new) :
    ∀ line ∈ shown n old new, Text.IsLine line := by
  refine (shown_reads n hne).forall_line Reader.isLine_hunkHead ?_
  intro mark hmark line hline
  have hfeed : mark ≠ '\n' := by
    rintro rfl
    simp at hmark
  rcases List.mem_append.mp hline with hline | hline
  · exact ((Text.areLines_linesWithEnds old).isLine line hline).cons hfeed
  · exact ((Text.areLines_linesWithEnds new).isLine line hline).cons hfeed

/-- The hunks are read back exactly if line feeds keep their lines apart. -/
theorem run?_shown_iff (n : ℕ) {old new : Text} (hne : old ≠ new) :
    Reader.run? ⟨0, 0, 0, 0, Text.linesWithEnds old⟩ (Text.feedLines (shown n old new).flatten) =
        some new ↔
      ∀ line ∈ (shown n old new).dropLast, Text.Fed line := by
  have hreads := shown_reads n hne
  have hnew := Text.areLines_linesWithEnds new
  have hold := (Text.areLines_linesWithEnds old).isLine
  constructor
  · intro hrun
    by_contra hopen
    push Not at hopen
    have hbroken := hreads.run?_feedLines_ne hold hnew hopen
    rw [Text.flatten_linesWithEnds] at hbroken
    exact hbroken hrun
  · intro hfed
    rw [Text.feedLines_flatten (isLine_shown n hne) hfed, hreads.run?, Text.flatten_linesWithEnds]

theorem fed_shown (n : ℕ) {old new : Text} (hne : old ≠ new)
    (h : ∀ line ∈ Text.linesWithEnds old ++ Text.linesWithEnds new, Text.Fed line) :
    ∀ line ∈ shown n old new, Text.Fed line := by
  refine (shown_reads n hne).forall_line Reader.fed_hunkHead ?_
  intro mark _ line hline
  have hfed := h line hline
  rw [Text.Fed, List.getLast?_cons, hfed]
  rfl

theorem unified_eq_nil_iff (n : ℕ) (path : Text) {old new : Text} :
    unified n path old new = [] ↔ new = old := by
  constructor
  · intro hnil
    by_contra hne
    rw [unified_of_ne n path (Ne.symm hne)] at hnil
    exact header_append_ne_nil _ _ hnil
  · rintro rfl
    exact unified_self n path new

theorem patched?_unified_iff (n : ℕ) (path old new : Text) :
    patched? (Text.linesWithEnds old) (unified n path old new) = some new ↔
      new = old ∨ '\n' ∉ path ∧ ∀ line ∈ (shown n old new).dropLast, Text.Fed line := by
  by_cases hsame : new = old
  · subst hsame
    simp [unified_self, patched?, Text.feedLines, Text.flatten_linesWithEnds]
  · rw [unified_of_ne n path (Ne.symm hsame)]
    by_cases hpath : '\n' ∈ path
    · rw [patched?_header_feed hpath]
      simp [hsame, hpath]
    · rw [patched?_header hpath, run?_shown_iff n (Ne.symm hsame)]
      simp [hsame, hpath]

end Diff

/-- A diff is empty only if the text stays the same. Otherwise it leads from the one text to the
other exactly if the path has no line feed and every line that is shown, save the last, ends in one.
For texts whose lines all end in line feeds this holds, and their lines need no other mark. -/
theorem Outcome.diff_reads_back (o : Outcome) (n : ℕ) :
    (o.diff n = [] ↔ o.code = o.source) ∧
      (o.code ≠ o.source →
        o.diff n = Diff.header o.path ++ (Diff.shown n o.source o.code).flatten) ∧
      (Diff.patched? (Text.linesWithEnds o.source) (o.diff n) = some o.code ↔
        o.code = o.source ∨ '\n' ∉ o.path ∧
          ∀ line ∈ (Diff.shown n o.source o.code).dropLast, Text.Fed line) ∧
      ('\n' ∉ o.path →
        (∀ line ∈ Text.linesWithEnds o.source ++ Text.linesWithEnds o.code, Text.Fed line) →
          Diff.patched? (Text.feedLines o.source) (o.diff n) = some o.code) := by
  refine ⟨Diff.unified_eq_nil_iff n o.path, ?_, ?_, ?_⟩
  · exact fun hne => Diff.unified_of_ne n o.path (Ne.symm hne)
  · exact Diff.patched?_unified_iff n o.path o.source o.code
  · intro hpath hfed
    have hlines : Text.feedLines o.source = Text.linesWithEnds o.source := by
      have hsource := Text.feedLines_flatten (Text.areLines_linesWithEnds o.source).isLine
        fun line hline => hfed line (List.mem_append_left _ (List.mem_of_mem_dropLast hline))
      rwa [Text.flatten_linesWithEnds] at hsource
    rw [hlines]
    refine (Diff.patched?_unified_iff n o.path o.source o.code).mpr ?_
    by_cases hsame : o.code = o.source
    · exact .inl hsame
    · exact .inr ⟨hpath, fun line hline =>
        Diff.fed_shown n (Ne.symm hsame) hfed line (List.mem_of_mem_dropLast hline)⟩

theorem Outcome.diff_reads_back_link :
    let o : Outcome := {
      path := "App.jsx".toList
      source := "<a>Go</a>\n".toList
      code := "<a data-testid=\"test-app-link\">Go</a>\n".toList }
    Diff.patched? (Text.feedLines o.source) (o.diff 3) = some o.code :=
  (Outcome.diff_reads_back _ 3).2.2.2 (by decide) (by decide)

/-- Without a line feed at the end of the text, the two lines of a change are one. -/
theorem Outcome.diff_runs_together :
    let o : Outcome := {
      path := "App.jsx".toList
      source := "<a>Go</a>".toList
      code := "<a data-testid=\"test-app-link\">Go</a>".toList }
    o.diff 3 = ("--- a/App.jsx\n+++ b/App.jsx\n@@ -1 +1 @@\n" ++
        "-<a>Go</a>+<a data-testid=\"test-app-link\">Go</a>").toList ∧
      Diff.patched? (Text.linesWithEnds o.source) (o.diff 3) ≠ some o.code := by
  decide +kernel

end MarkupIds
