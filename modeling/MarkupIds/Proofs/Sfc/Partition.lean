import MarkupIds.Proofs.Sfc.Section

/-!
# Sections as parts of a file

Every section stands between its own markers, no two sections share a line, and only the last one
may go on to the end of the file. A marker outside of all sections opens nothing, since a section of
its name is complete by then.
-/

namespace MarkupIds.Sfc

/-! ## Sections in lines -/

/-- A section as it stands in the lines of a file: its opening marker, its own lines up to its
closing marker or the end of the file, and none among them that closes it. -/
structure Section.Stands (lines : List Text) (s : Section) : Prop where
  openLine_pos : 0 < s.openLine
  opened : ∃ line, lines[s.openLine - 1]? = some line ∧ opens? line = some s.name
  closed : ∀ n, s.closeLine = some n →
    s.openLine < n ∧ ∃ line, lines[n - 1]? = some line ∧ closes? line = some s.name
  own : s.lines = (s.closeLine.elim lines fun n => lines.take (n - 1)).drop s.openLine
  unclosed : ∀ line ∈ s.lines, closes? line ≠ some s.name

/-- The section has this line, one of its markers included. -/
def Section.Spans (s : Section) (n : ℕ) : Prop :=
  s.openLine ≤ n ∧ ∀ stop, s.closeLine = some stop → n ≤ stop

/-- The section is closed in front of the other one. -/
def Section.EndsBefore (s t : Section) : Prop :=
  ∃ n, s.closeLine = some n ∧ n < t.openLine

theorem Section.Stands.openLine_le {lines : List Text} {s : Section} (h : s.Stands lines) :
    s.openLine ≤ lines.length := by
  obtain ⟨line, hline, _⟩ := h.opened
  have hlt := (List.getElem?_eq_some_iff.mp hline).1
  omega

theorem Section.Stands.closeLine_le {lines : List Text} {s : Section} (h : s.Stands lines) {n : ℕ}
    (hn : s.closeLine = some n) : n ≤ lines.length := by
  obtain ⟨_, line, hline, _⟩ := h.closed n hn
  have hlt := (List.getElem?_eq_some_iff.mp hline).1
  omega

/-- A section that is closed stands there whatever follows. -/
theorem Section.Stands.append {lines : List Text} {s : Section} (h : s.Stands lines) {n : ℕ}
    (hn : s.closeLine = some n) (more : List Text) : s.Stands (lines ++ more) := by
  obtain ⟨line, hline, hopens⟩ := h.opened
  obtain ⟨hlt, closing, hclosing, hcloses⟩ := h.closed n hn
  have hgrow : ∀ {i : ℕ} {l : Text}, lines[i]? = some l → (lines ++ more)[i]? = some l := by
    intro i l hl
    rw [List.getElem?_append_left (List.getElem?_eq_some_iff.mp hl).1, hl]
  refine ⟨h.openLine_pos, ⟨line, hgrow hline, hopens⟩, ?_, ?_, h.unclosed⟩
  · intro stop hstop
    obtain rfl : n = stop := Option.some.inj (hn.symm.trans hstop)
    exact ⟨hlt, closing, hgrow hclosing, hcloses⟩
  · have hle : n - 1 ≤ lines.length := (Nat.sub_le n 1).trans (h.closeLine_le hn)
    rw [h.own, hn, Option.elim_some, Option.elim_some, List.take_append_of_le_length hle]

theorem Section.Stands.lines_prefix {lines : List Text} {s : Section} (h : s.Stands lines) :
    s.lines <+: lines.drop s.openLine := by
  rw [h.own]
  cases s.closeLine with
  | none => exact List.prefix_rfl
  | some n =>
      rw [Option.elim_some, List.drop_take]
      exact List.take_prefix _ _

theorem Section.Stands.take_append_drop {lines : List Text} {s : Section} (h : s.Stands lines) :
    lines.take s.openLine ++ s.lines ++ lines.drop s.endLine = lines := by
  have hback := List.prefix_iff_eq_append.mp h.lines_prefix
  rw [List.drop_drop] at hback
  rw [List.append_assoc, Section.endLine, hback, List.take_append_drop]

/-! ## One line -/

/-- What a line can do: pass by outside of all sections, where it opens none that is not found yet;
open a section; close the one that is open; or belong to it. -/
theorem advance_cases (n : ℕ) (found : List Section) (current : Option Section) (line : Text) :
    (current = none ∧ advance n found current line = (found, none) ∧
      ∀ name, opens? line = some name → ∃ s ∈ found, s.name = name) ∨
    (current = none ∧ ∃ name, opens? line = some name ∧ (∀ s ∈ found, s.name ≠ name) ∧
      advance n found current line = (found, some { name, openLine := n })) ∨
    (∃ s, current = some s ∧ closes? line = some s.name ∧
      advance n found current line = (found ++ [{ s with closeLine := some n }], none)) ∨
    ∃ s, current = some s ∧ closes? line ≠ some s.name ∧
      advance n found current line = (found, some { s with lines := s.lines ++ [line] }) := by
  cases current with
  | none =>
      cases hopens : opens? line with
      | none => exact .inl ⟨rfl, by simp [advance, hopens], by simp⟩
      | some name =>
          by_cases hfound : found.any (·.name == name) = true
          · refine .inl ⟨rfl, by simp [advance, hopens, hfound], ?_⟩
            rintro _ ⟨⟩
            simpa using hfound
          · refine .inr (.inl ⟨rfl, name, rfl, by simpa using hfound, ?_⟩)
            simp [advance, hopens, hfound]
  | some s =>
      by_cases hcloses : closes? line = some s.name
      · exact .inr (.inr (.inl ⟨s, rfl, hcloses, by simp [advance, hcloses]⟩))
      · exact .inr (.inr (.inr ⟨s, rfl, hcloses, by simp [advance, hcloses]⟩))

/-- What holds of the sections that are found or open behind some lines. -/
structure Walked (lines : List Text) (found : List Section) (current : Option Section) : Prop where
  stands : ∀ s ∈ found ++ current.toList, s.Stands lines
  closed : ∀ s ∈ found, ∃ n, s.closeLine = some n
  unclosed : ∀ s ∈ current, s.closeLine = none
  ordered : (found ++ current.toList).Pairwise Section.EndsBefore
  names : ((found ++ current.toList).map (·.name)).Nodup
  outside : ∀ n line name, lines[n]? = some line → opens? line = some name →
    (∀ s ∈ found ++ current.toList, ¬ s.Spans (n + 1)) →
    ∃ s ∈ found, s.name = name ∧ ∃ stop, s.closeLine = some stop ∧ stop ≤ n

namespace Walked

variable {lines : List Text} {found : List Section} {current : Option Section}

theorem nil : Walked [] [] none :=
  ⟨by simp, by simp, by simp, by simp, by simp, by simp⟩

/-- The sections found so far stand, whatever follows. -/
theorem stands_append (h : Walked lines found current) (more : List Text) :
    ∀ s ∈ found, s.Stands (lines ++ more) := by
  intro s hs
  obtain ⟨n, hn⟩ := h.closed s hs
  exact (h.stands s (List.mem_append_left _ hs)).append hn more

/-- A line of some lines and one more is one of them or the new one. -/
theorem getElem?_concat {n : ℕ} {line new : Text} (h : (lines ++ [new])[n]? = some line) :
    lines[n]? = some line ∨ n = lines.length ∧ line = new := by
  rcases Nat.lt_or_ge n lines.length with hlt | hge
  · rw [List.getElem?_append_left hlt] at h
    exact .inl h
  · rw [List.getElem?_append_right hge, List.getElem?_singleton] at h
    split at h
    · exact .inr ⟨by omega, (Option.some.inj h).symm⟩
    · exact nomatch h

theorem pass (h : Walked lines found none) {line : Text}
    (hpassed : ∀ name, opens? line = some name → ∃ s ∈ found, s.name = name) :
    Walked (lines ++ [line]) found none := by
  refine ⟨?_, h.closed, h.unclosed, h.ordered, h.names, ?_⟩
  · simpa using h.stands_append [line]
  · intro n l name hl hopens houtside
    rcases getElem?_concat hl with hold | ⟨rfl, rfl⟩
    · exact h.outside n l name hold hopens houtside
    · obtain ⟨s, hs, hname⟩ := hpassed name hopens
      obtain ⟨stop, hstop⟩ := h.closed s hs
      exact ⟨s, hs, hname, stop, hstop,
        (h.stands s (List.mem_append_left _ hs)).closeLine_le hstop⟩

theorem opening (h : Walked lines found none) {line name : Text} (hopens : opens? line = some name)
    (hnew : ∀ s ∈ found, s.name ≠ name) :
    Walked (lines ++ [line]) found (some { name, openLine := lines.length + 1 }) := by
  have hbefore : ∀ s ∈ found, s.EndsBefore { name, openLine := lines.length + 1 } := by
    intro s hs
    obtain ⟨n, hn⟩ := h.closed s hs
    have hle := (h.stands s (List.mem_append_left _ hs)).closeLine_le hn
    exact ⟨n, hn, Nat.lt_succ_of_le hle⟩
  have hstands : Section.Stands (lines ++ [line]) { name, openLine := lines.length + 1 } :=
    ⟨Nat.succ_pos _, ⟨line, by simp, hopens⟩, by simp, by simp, by simp⟩
  have hordered := h.ordered
  have hnames := h.names
  simp only [Option.toList_none, List.append_nil] at hordered hnames
  refine ⟨?_, h.closed, by simp, ?_, ?_, ?_⟩
  · simp only [Option.toList_some, List.mem_append, List.mem_singleton]
    rintro s (hs | rfl)
    · exact h.stands_append [line] s hs
    · exact hstands
  · simpa [List.pairwise_append, hordered] using hbefore
  · simpa [List.nodup_append, hnames] using hnew
  · intro n l opened hl hopened houtside
    rcases getElem?_concat hl with hold | ⟨rfl, rfl⟩
    · exact h.outside n l opened hold hopened fun s hs => houtside s (by simp_all)
    · exact absurd ⟨Nat.le_refl _, by simp⟩ (houtside { name, openLine := lines.length + 1 } (by simp))

theorem closing {s : Section} (h : Walked lines found (some s)) {line : Text}
    (hcloses : closes? line = some s.name) :
    Walked (lines ++ [line]) (found ++ [{ s with closeLine := some (lines.length + 1) }]) none := by
  have hs : s.Stands lines := h.stands s (by simp)
  have hopen : s.closeLine = none := h.unclosed s rfl
  have hle := hs.openLine_le
  have hstands : Section.Stands (lines ++ [line])
      { s with closeLine := some (lines.length + 1) } := by
    obtain ⟨first, hfirst, hopens⟩ := hs.opened
    refine ⟨hs.openLine_pos, ⟨first, ?_, hopens⟩, ?_, ?_, hs.unclosed⟩
    · rw [List.getElem?_append_left (List.getElem?_eq_some_iff.mp hfirst).1, hfirst]
    · rintro n ⟨⟩
      exact ⟨Nat.lt_succ_of_le hle, line, by simp, hcloses⟩
    · simp [hs.own, hopen]
  have hordered := h.ordered
  have hnames := h.names
  refine ⟨?_, ?_, by simp, ?_, ?_, ?_⟩
  · simp only [Option.toList_none, List.append_nil, List.mem_append, List.mem_singleton]
    rintro t (ht | rfl)
    · exact h.stands_append [line] t ht
    · exact hstands
  · simp only [List.mem_append, List.mem_singleton]
    rintro t (ht | rfl)
    · exact h.closed t ht
    · exact ⟨_, rfl⟩
  · simpa [List.pairwise_append, Section.EndsBefore] using hordered
  · simpa using hnames
  · intro n l name hl hopens houtside
    rcases getElem?_concat hl with hold | ⟨rfl, rfl⟩
    · have hlt := (List.getElem?_eq_some_iff.mp hold).1
      obtain ⟨t, ht, hfound⟩ := h.outside n l name hold hopens (by
        simp only [Option.toList_some, List.mem_append, List.mem_singleton]
        rintro t (ht | rfl) hspans
        · exact houtside t (by simp [ht]) hspans
        · refine houtside { t with closeLine := some (lines.length + 1) } (by simp)
            ⟨hspans.1, ?_⟩
          rintro stop ⟨⟩
          omega)
      exact ⟨t, List.mem_append_left _ ht, hfound⟩
    · refine absurd ⟨Nat.le_succ_of_le hle, ?_⟩
        (houtside { s with closeLine := some (lines.length + 1) } (by simp))
      rintro stop ⟨⟩
      exact Nat.le_refl _

theorem keeping {s : Section} (h : Walked lines found (some s)) {line : Text}
    (hcloses : closes? line ≠ some s.name) :
    Walked (lines ++ [line]) found (some { s with lines := s.lines ++ [line] }) := by
  have hs : s.Stands lines := h.stands s (by simp)
  have hopen : s.closeLine = none := h.unclosed s rfl
  have hle := hs.openLine_le
  have hstands : Section.Stands (lines ++ [line]) { s with lines := s.lines ++ [line] } := by
    obtain ⟨first, hfirst, hopens⟩ := hs.opened
    refine ⟨hs.openLine_pos, ⟨first, ?_, hopens⟩, by simp [hopen], ?_, ?_⟩
    · rw [List.getElem?_append_left (List.getElem?_eq_some_iff.mp hfirst).1, hfirst]
    · simp [hs.own, hopen, List.drop_append_of_le_length hle]
    · simp only [List.mem_append, List.mem_singleton]
      rintro l (hl | rfl)
      · exact hs.unclosed l hl
      · exact hcloses
  have hordered := h.ordered
  have hnames := h.names
  refine ⟨?_, h.closed, by simpa using hopen, ?_, ?_, ?_⟩
  · simp only [Option.toList_some, List.mem_append, List.mem_singleton]
    rintro t (ht | rfl)
    · exact h.stands_append [line] t ht
    · exact hstands
  · simpa [List.pairwise_append, Section.EndsBefore] using hordered
  · simpa using hnames
  · intro n l name hl hopens houtside
    rcases getElem?_concat hl with hold | ⟨rfl, rfl⟩
    · refine h.outside n l name hold hopens ?_
      simp only [Option.toList_some, List.mem_append, List.mem_singleton]
      rintro t (ht | rfl) hspans
      · exact houtside t (by simp [ht]) hspans
      · exact houtside { t with lines := t.lines ++ [line] } (by simp) hspans
    · refine absurd ⟨Nat.le_succ_of_le hle, ?_⟩
        (houtside { s with lines := s.lines ++ [l] } (by simp))
      simp [hopen]

theorem step (h : Walked lines found current) (line : Text) :
    Walked (lines ++ [line]) (advance (lines.length + 1) found current line).1
      (advance (lines.length + 1) found current line).2 := by
  rcases advance_cases (lines.length + 1) found current line with
    ⟨rfl, hnext, hpassed⟩ | ⟨rfl, name, hopens, hnew, hnext⟩ | ⟨s, rfl, hcloses, hnext⟩ |
      ⟨s, rfl, hcloses, hnext⟩
  all_goals rw [hnext]
  · exact h.pass hpassed
  · exact h.opening hopens hnew
  · exact h.closing hcloses
  · exact h.keeping hcloses

/-- The walk keeps what holds of the sections to its end. -/
theorem sectionsFrom (h : Walked lines found current) (more : List Text) :
    ∃ closed last, sectionsFrom found current (lines.length + 1) more = closed ++ last.toList ∧
      Walked (lines ++ more) closed last := by
  induction more generalizing lines found current with
  | nil =>
      refine ⟨found, current, rfl, ?_⟩
      rwa [List.append_nil]
  | cons line more ih =>
      obtain ⟨closed, last, hrest, hwalked⟩ := ih (h.step line)
      refine ⟨closed, last, ?_, ?_⟩
      · rw [sectionsFrom_cons, ← hrest, List.length_append, List.length_singleton]
      · rwa [List.append_assoc] at hwalked

end Walked

/-! ## Files -/

theorem exists_walked (source : Text) :
    ∃ closed last, sections source = closed ++ Option.toList last ∧
      Walked (Text.split '\n' source) closed last :=
  Walked.nil.sectionsFrom (Text.split '\n' source)

theorem Section.EndsBefore.not_spans {s t : Section} (h : s.EndsBefore t) (n : ℕ) :
    ¬ (s.Spans n ∧ t.Spans n) := by
  obtain ⟨stop, hstop, hlt⟩ := h
  rintro ⟨⟨_, hs⟩, ht, _⟩
  have hle := hs stop hstop
  omega

/-- The sections of a file are parts of it: each stands between its markers, no two have a line in
common, all but the last are closed, and what opens a section outside of them comes too late. Its
own lines put in place of a section's lines give the file again. -/
theorem sections_partition (source : Text) :
    let lines := Text.split '\n' source
    let all := sections source
    (∀ s ∈ all, s.Stands lines) ∧
      (all.Pairwise fun s t => s.name ≠ t.name ∧ ∀ n, ¬ (s.Spans n ∧ t.Spans n)) ∧
      (∀ s ∈ all.dropLast, s.closeLine ≠ none) ∧
      (∀ n line name, lines[n]? = some line → opens? line = some name →
        (∀ s ∈ all, ¬ s.Spans (n + 1)) →
        ∃ s ∈ all, s.name = name ∧ ∃ stop, s.closeLine = some stop ∧ stop ≤ n) ∧
      ∀ s ∈ all, replaceLines source s s.lines = source := by
  intro lines all
  obtain ⟨closed, last, hall, hwalked⟩ := exists_walked source
  have hall : all = closed ++ last.toList := hall
  rw [hall]
  refine ⟨hwalked.stands, ?_, ?_, ?_, ?_⟩
  · exact (List.pairwise_map.mp hwalked.names).imp₂
      (fun s t hname hbefore => ⟨hname, hbefore.not_spans⟩) hwalked.ordered
  · intro s hs
    have hclosed : s ∈ closed := by
      cases last with
      | none => exact List.dropLast_subset _ (by simpa using hs)
      | some t => simpa using hs
    obtain ⟨n, hn⟩ := hwalked.closed s hclosed
    simp [hn]
  · intro n line name hline hopens houtside
    obtain ⟨s, hs, hfound⟩ := hwalked.outside n line name hline hopens houtside
    exact ⟨s, List.mem_append_left _ hs, hfound⟩
  · intro s hs
    rw [replaceLines, (hwalked.stands s hs).take_append_drop, Text.join_split]

end MarkupIds.Sfc
