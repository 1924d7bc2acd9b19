import MarkupIds.Proofs.Text.Basic
import MarkupIds.Sfc.Section
import Mathlib.Data.List.TakeWhile

/-!
# Replacing the lines of a section

Sections are found by a walk over the lines. Other lines in place of a section's own, as many of
them and none that closes the section, leave every marker where it was.
-/

namespace MarkupIds.Sfc

/-! ## The walk -/

/-- What one line does to the sections found so far and the section that is open. -/
def advance (n : ℕ) (found : List Section) (current : Option Section) (line : Text) :
    List Section × Option Section :=
  match current with
  | none =>
    match opens? line with
    | some name =>
      if found.any (·.name == name) then (found, none)
      else (found, some { name, openLine := n })
    | none => (found, none)
  | some s =>
    if closes? line == some s.name then (found ++ [{ s with closeLine := some n }], none)
    else (found, some { s with lines := s.lines ++ [line] })

theorem sectionsFrom_cons (n : ℕ) (found : List Section) (current : Option Section) (line : Text)
    (lines : List Text) :
    sectionsFrom found current n (line :: lines) =
      sectionsFrom (advance n found current line).1 (advance n found current line).2 (n + 1)
        lines := by
  cases current with
  | none =>
      cases hopens : opens? line with
      | none => simp only [sectionsFrom, advance, hopens]
      | some name =>
          simp only [sectionsFrom, advance, hopens]
          split <;> rfl
  | some s =>
      simp only [sectionsFrom, advance]
      split <;> rfl

/-- No section of this name is found or open. -/
def Unseen (name : Text) (found : List Section) (current : Option Section) : Prop :=
  (∀ s ∈ found, s.name ≠ name) ∧ ∀ s ∈ current, s.name ≠ name

/-- A line keeps a name unseen or opens its section. -/
theorem advance_unseen {name : Text} {found : List Section} {current : Option Section}
    (h : Unseen name found current) (n : ℕ) (line : Text) :
    Unseen name (advance n found current line).1 (advance n found current line).2 ∨
      advance n found current line = (found, some { name, openLine := n }) := by
  obtain ⟨hfound, hcurrent⟩ := h
  unfold advance
  cases current with
  | none =>
      cases opens? line with
      | none => exact .inl ⟨hfound, by simp⟩
      | some opened =>
          dsimp only
          split
          · exact .inl ⟨hfound, by simp⟩
          · by_cases hname : opened = name
            · subst hname
              exact .inr rfl
            · exact .inl ⟨hfound, by simpa using hname⟩
  | some s =>
      have hs := hcurrent s rfl
      dsimp only
      split
      · refine .inl ⟨?_, by simp⟩
        simpa [or_imp, forall_and] using ⟨hfound, hs⟩
      · exact .inl ⟨hfound, by simpa using hs⟩

theorem sectionsFrom_extends (found : List Section) (current : Option Section) (n : ℕ)
    (lines : List Text) : found <+: sectionsFrom found current n lines := by
  induction lines generalizing found current n with
  | nil => exact List.prefix_append _ _
  | cons line lines ih =>
      rw [sectionsFrom_cons]
      refine List.IsPrefix.trans ?_ (ih _ _ _)
      unfold advance
      cases current with
      | none =>
          cases opens? line with
          | none => exact List.prefix_rfl
          | some name =>
              dsimp only
              split <;> exact List.prefix_rfl
      | some s =>
          dsimp only
          split
          · exact List.prefix_append _ _
          · exact List.prefix_rfl

/-! ## Other lines -/

/-- The section with other lines, if it is of this name. -/
def Section.withLines (name : Text) (lines : List Text) (s : Section) : Section :=
  if s.name = name then { s with lines } else s

@[simp] theorem Section.withLines_name (name : Text) (lines : List Text) (s : Section) :
    (s.withLines name lines).name = s.name := by
  unfold Section.withLines
  split <;> rfl

theorem Section.withLines_of_ne {name : Text} {s : Section} (h : s.name ≠ name)
    (lines : List Text) : s.withLines name lines = s := by
  rw [Section.withLines, if_neg h]

/-- Behind a section, its lines do not matter. -/
theorem sectionsFrom_map_withLines {name : Text} (body : List Text) (lines : List Text)
    {found : List Section} (hfound : found.any (·.name == name) = true)
    {current : Option Section} (hcurrent : ∀ s ∈ current, s.name ≠ name) (n : ℕ) :
    sectionsFrom (found.map (Section.withLines name body)) current n lines =
      (sectionsFrom found current n lines).map (Section.withLines name body) := by
  induction lines generalizing found current n with
  | nil =>
      cases current with
      | none => simp [sectionsFrom]
      | some s => simp [sectionsFrom, Section.withLines_of_ne (hcurrent s rfl)]
  | cons line lines ih =>
      have hnames : ∀ opened, (found.map (Section.withLines name body)).any (·.name == opened) =
          found.any (·.name == opened) := by
        simp [List.any_map, Function.comp_def]
      cases current with
      | none =>
          cases hopens : opens? line with
          | none => simpa [sectionsFrom, hopens] using ih hfound (by simp) (n + 1)
          | some opened =>
              simp only [sectionsFrom, hopens, hnames]
              split
              · exact ih hfound (by simp) (n + 1)
              · rename_i hnew
                refine ih hfound ?_ (n + 1)
                simp only [Option.mem_def, Option.some.injEq, forall_eq']
                rintro rfl
                exact hnew hfound
      | some s =>
          have hs := hcurrent s rfl
          simp only [sectionsFrom]
          split
          · have hclosed :
                (found ++ [{ s with closeLine := some n }]).any (·.name == name) = true := by
              simp [List.any_append, hfound]
            rw [← ih hclosed (by simp) (n + 1), List.map_append, List.map_singleton,
              Section.withLines_of_ne (s := { s with closeLine := some n }) hs]
          · exact ih hfound (by simpa using hs) (n + 1)

/-- Lines that do not close the open section are its own. -/
theorem sectionsFrom_body (body lines : List Text) (found : List Section) (s : Section) (n : ℕ)
    (h : ∀ line ∈ body, closes? line ≠ some s.name) :
    sectionsFrom found (some s) n (body ++ lines) =
      sectionsFrom found (some { s with lines := s.lines ++ body }) (n + body.length) lines := by
  induction body generalizing s n with
  | nil => simp
  | cons line body ih =>
      have hline : (closes? line == some s.name) = false := by simpa using h line (by simp)
      rw [List.cons_append, sectionsFrom.eq_def]
      simp only [hline, Bool.false_eq_true, if_false]
      have hcount : n + (line :: body).length = n + 1 + body.length := by
        rw [List.length_cons]
        omega
      rw [ih { s with lines := s.lines ++ [line] } (n + 1) fun l hl => h l (by simp [hl]), hcount]
      simp

/-- The lines around a section: those up to its opening marker, its own, and those from its
closing marker on. Its own lines can be replaced. -/
structure Frame (name : Text) (found : List Section) (current : Option Section) (n : ℕ)
    (lines : List Text) (s : Section) (front back : List Text) : Prop where
  lines_eq : lines = front ++ (s.lines ++ back)
  openLine : s.openLine + 1 = n + front.length
  body : ∀ line ∈ s.lines, closes? line ≠ some name
  replace : ∀ body : List Text, body.length = s.lines.length →
    (∀ line ∈ body, closes? line ≠ some name) →
    sectionsFrom found current n (front ++ (body ++ back)) =
      (sectionsFrom found current n lines).map (Section.withLines name body)

theorem find?_of_unseen {name : Text} {found : List Section} {s : Section} {all : List Section}
    (hfound : ∀ s ∈ found, s.name ≠ name) (hs : s.name = name) (h : found ++ [s] <+: all) :
    all.find? (·.name == name) = some s := by
  obtain ⟨rest, rfl⟩ := h
  have hnone : found.find? (·.name == name) = none := by simpa using hfound
  simp [List.find?_append, hnone, hs]

theorem map_withLines_of_unseen {name : Text} {found : List Section}
    (hfound : ∀ s ∈ found, s.name ≠ name) (body : List Text) :
    found.map (Section.withLines name body) = found := by
  calc found.map (Section.withLines name body)
      = found.map id := List.map_congr_left fun s hs => Section.withLines_of_ne (hfound s hs) body
    _ = found := List.map_id found

/-- Lines are the body of an open section and what stands from its closing marker on. -/
theorem exists_body (name : Text) (lines : List Text) :
    ∃ body back, lines = body ++ back ∧ (∀ line ∈ body, closes? line ≠ some name) ∧
      ∀ line ∈ back.head?, closes? line = some name := by
  refine ⟨lines.takeWhile (closes? · != some name), lines.dropWhile (closes? · != some name),
    (List.takeWhile_append_dropWhile).symm, ?_, ?_⟩
  · intro line hline
    simpa using List.mem_takeWhile_imp hline
  · intro line hline
    have hhead := List.head?_dropWhile_not (closes? · != some name) lines
    rw [Option.mem_def.mp hline] at hhead
    simpa using hhead

/-- The frame of a section that has just been opened. -/
theorem exists_frame_opened {name : Text} {found : List Section}
    (hfound : ∀ s ∈ found, s.name ≠ name) (n : ℕ) (lines : List Text) :
    ∃ s back, (sectionsFrom found (some { name, openLine := n }) (n + 1) lines).find?
        (·.name == name) = some s ∧
      Frame name found (some { name, openLine := n }) (n + 1) lines s [] back := by
  obtain ⟨body, back, rfl, hbody, hback⟩ := exists_body name lines
  cases back with
  | nil =>
      have hend : ∀ body' : List Text, (∀ line ∈ body', closes? line ≠ some name) →
          sectionsFrom found (some { name, openLine := n }) (n + 1) (body' ++ []) =
            found ++ [{ name, openLine := n, lines := body' }] := by
        intro body' hbody'
        rw [sectionsFrom_body _ _ _ _ _ hbody']
        rfl
      refine ⟨{ name, openLine := n, lines := body }, [], ?_, rfl, by simp, hbody, ?_⟩
      · rw [hend body hbody]
        exact find?_of_unseen hfound rfl List.prefix_rfl
      · intro body' _ hbody'
        rw [List.nil_append, hend body hbody, hend body' hbody', List.map_append,
          map_withLines_of_unseen hfound]
        simp [Section.withLines]
  | cons closing tail =>
      have hclosing : closes? closing = some name := hback closing rfl
      have hend : ∀ body' : List Text, body'.length = body.length →
          (∀ line ∈ body', closes? line ≠ some name) →
          sectionsFrom found (some { name, openLine := n }) (n + 1) (body' ++ closing :: tail) =
            sectionsFrom (found ++ [⟨name, n, some (n + 1 + body.length), body'⟩]) none
              (n + 1 + body.length + 1) tail := by
        intro body' hlength hbody'
        rw [sectionsFrom_body _ _ _ _ _ hbody', hlength, sectionsFrom.eq_def]
        simp [hclosing]
      refine ⟨⟨name, n, some (n + 1 + body.length), body⟩, closing :: tail, ?_, rfl, by simp,
        hbody, ?_⟩
      · rw [hend body rfl hbody]
        exact find?_of_unseen hfound rfl (sectionsFrom_extends _ _ _ _)
      · intro body' hlength hbody'
        rw [List.nil_append, hend body rfl hbody, hend body' hlength hbody',
          ← sectionsFrom_map_withLines body' tail (by simp) (by simp), List.map_append,
          map_withLines_of_unseen hfound]
        simp [Section.withLines]

/-- Every section that the walk finds has a frame. -/
theorem exists_frame {name : Text} {found : List Section} {current : Option Section}
    (hunseen : Unseen name found current) (n : ℕ) (lines : List Text) {s : Section}
    (h : (sectionsFrom found current n lines).find? (·.name == name) = some s) :
    ∃ front back, Frame name found current n lines s front back := by
  induction lines generalizing found current n with
  | nil =>
      have hmem := List.mem_of_find?_eq_some h
      have hname : s.name = name := by simpa using List.find?_some h
      rcases List.mem_append.mp hmem with hmem | hmem
      · exact absurd hname (hunseen.1 s hmem)
      · exact absurd hname (hunseen.2 s (by simpa using hmem))
  | cons line lines ih =>
      rw [sectionsFrom_cons] at h
      obtain ⟨front, back, hframe⟩ : ∃ front back,
          Frame name (advance n found current line).1 (advance n found current line).2 (n + 1)
            lines s front back := by
        rcases advance_unseen hunseen n line with hnext | hopened
        · exact ih hnext (n + 1) h
        · rw [hopened] at h ⊢
          obtain ⟨s', back, hs', hframe⟩ := exists_frame_opened hunseen.1 n lines
          obtain rfl : s' = s := Option.some.inj (hs'.symm.trans h)
          exact ⟨[], back, hframe⟩
      refine ⟨line :: front, back, ?_, ?_, hframe.body, ?_⟩
      · rw [hframe.lines_eq]
        rfl
      · have hopen := hframe.openLine
        simp only [List.length_cons]
        omega
      · intro body hlength hbody
        rw [List.cons_append, sectionsFrom_cons, sectionsFrom_cons]
        exact hframe.replace body hlength hbody

/-! ## Files -/

theorem exists_section_frame {source : Text} {name : String} {s : Section}
    (h : section? source name = some s) :
    ∃ front back, Frame name.toList [] none 1 (Text.split '\n' source) s front back :=
  exists_frame ⟨by simp, by simp⟩ 1 (Text.split '\n' source) h

/-- The lines of a file whose section has other lines. -/
theorem Frame.split_replaceLines {source : Text} {name : Text} {s : Section}
    {front back : List Text} (h : Frame name [] none 1 (Text.split '\n' source) s front back)
    {lines : List Text} (hlength : lines.length = s.lines.length)
    (hbreak : ∀ line ∈ lines, '\n' ∉ line) :
    Text.split '\n' (replaceLines source s lines) = front ++ (lines ++ back) := by
  have hall := h.lines_eq
  have hopen : front.length = s.openLine := by
    have hline := h.openLine
    omega
  have hfront : (Text.split '\n' source).take s.openLine = front := by
    rw [hall, ← hopen, List.take_left]
  have hback : (Text.split '\n' source).drop s.endLine = back := by
    have hend : s.endLine = (front ++ s.lines).length := by
      simp [Section.endLine, hopen]
    rw [hall, ← List.append_assoc, hend, List.drop_left]
  simp only [replaceLines, hfront, hback, List.append_assoc]
  apply Text.split_join
  · intro piece hpiece
    simp only [List.mem_append] at hpiece
    rcases hpiece with hpiece | hpiece | hpiece
    · exact Text.not_mem_of_mem_split (t := source) (by simp [hall, hpiece])
    · exact hbreak piece hpiece
    · exact Text.not_mem_of_mem_split (t := source) (by simp [hall, hpiece])
  · intro hnil
    simp only [List.append_eq_nil_iff] at hnil
    obtain ⟨rfl, rfl, rfl⟩ := hnil
    have hempty : s.lines = [] := List.length_eq_zero_iff.mp hlength.symm
    rw [hempty, Text.split_eq_splitOn] at hall
    exact List.splitOn_ne_nil '\n' source hall

/-- A file whose section has other lines: the same sections at the same places. -/
theorem sections_replaceLines {source : Text} {name : String} {s : Section}
    (h : section? source name = some s) {lines : List Text}
    (hlength : lines.length = s.lines.length) (hbreak : ∀ line ∈ lines, '\n' ∉ line)
    (hbody : ∀ line ∈ lines, closes? line ≠ some name.toList) :
    sections (replaceLines source s lines) =
      (sections source).map (Section.withLines name.toList lines) := by
  obtain ⟨front, back, hframe⟩ := exists_section_frame h
  rw [sections, hframe.split_replaceLines hlength hbreak]
  exact hframe.replace lines hlength hbody

/-- A file whose section has other lines has that section with these lines. -/
theorem section?_replaceLines {source : Text} {name : String} {s : Section}
    (h : section? source name = some s) {lines : List Text}
    (hlength : lines.length = s.lines.length) (hbreak : ∀ line ∈ lines, '\n' ∉ line)
    (hbody : ∀ line ∈ lines, closes? line ≠ some name.toList) :
    (section? (replaceLines source s lines) name) = some { s with lines } := by
  have hname : s.name = name.toList := by simpa using List.find?_some h
  rw [section?, sections_replaceLines h hlength hbreak hbody, List.find?_map]
  have hsame : ((·.name == name.toList) ∘ Section.withLines name.toList lines) =
      fun x : Section => x.name == name.toList := by
    funext x
    simp
  rw [section?] at h
  rw [hsame, h, Option.map_some, Section.withLines, if_pos hname]

/-- The lines of a section do not close it. -/
theorem closes?_of_mem_section {source : Text} {name : String} {s : Section}
    (h : section? source name = some s) : ∀ line ∈ s.lines, closes? line ≠ some name.toList := by
  obtain ⟨front, back, hframe⟩ := exists_section_frame h
  exact hframe.body

/-- Lines that close what the lines of a section close do not close it either. -/
theorem closes?_of_map_closes? {source : Text} {name : String} {s : Section}
    (h : section? source name = some s) {lines : List Text}
    (hsame : lines.map closes? = s.lines.map closes?) :
    ∀ line ∈ lines, closes? line ≠ some name.toList := by
  intro line hline hcloses
  have hmem : some name.toList ∈ s.lines.map closes? := by
    rw [← hsame, ← hcloses]
    exact List.mem_map_of_mem hline
  obtain ⟨old, hold, hclosed⟩ := List.mem_map.mp hmem
  exact closes?_of_mem_section h old hold hclosed

theorem newline_not_mem_section {source : Text} {name : String} {s : Section}
    (h : section? source name = some s) : ∀ line ∈ s.lines, '\n' ∉ line := by
  obtain ⟨front, back, hframe⟩ := exists_section_frame h
  intro line hline
  exact Text.not_mem_of_mem_split (t := source) (by simp [hframe.lines_eq, hline])

end MarkupIds.Sfc
