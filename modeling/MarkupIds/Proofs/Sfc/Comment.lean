import MarkupIds.Proofs.Text.Basic
import MarkupIds.Sfc.Comment

/-!
# Comments around tags

Masking stops at an opening bracket, so a text that ends in front of a tag is masked by itself. Text
that is shown has no mark in it that opens a comment.
-/

namespace MarkupIds.Sfc

theorem length_maskLine (inside : Bool) (line : Text) :
    (maskLine inside line).1.length = line.length := by
  fun_induction maskLine inside line <;> simp_all

theorem ne_closing {c : Char} {cs : Text}
    (h : ∀ rest, c = '-' → cs = '-' :: '>' :: rest → False) (rest : Text) :
    c :: cs ≠ '-' :: '-' :: '>' :: rest := by
  intro hclosing
  obtain ⟨hc, hcs⟩ := List.cons_eq_cons.mp hclosing
  exact h rest hc hcs

theorem maskLine_inside {c : Char} {cs : Text}
    (h : ∀ rest, c :: cs ≠ '-' :: '-' :: '>' :: rest) :
    maskLine true (c :: cs) = (' ' :: (maskLine true cs).1, (maskLine true cs).2) := by
  rw [maskLine]
  intro rest hc hcs
  exact h rest (by rw [hc, hcs])

theorem maskLine_outside {c : Char} {cs : Text}
    (h : (c == '<' && Text.startsWith ['!', '-', '-'] cs) = false) :
    maskLine false (c :: cs) = (c :: (maskLine false cs).1, (maskLine false cs).2) := by
  rw [maskLine, if_neg (by simp [h])]

theorem maskLine_opening {c : Char} {cs : Text}
    (h : (c == '<' && Text.startsWith ['!', '-', '-'] cs) = true) :
    maskLine false (c :: cs) = (' ' :: (maskLine true cs).1, (maskLine true cs).2) := by
  rw [maskLine, if_pos h]

/-- A mark that closes a comment does not reach across a character that it does not have. -/
theorem not_closing_append_stop {c stop : Char} {cs : Text} (hstop : stop ∉ "-->".toList)
    (h : ∀ rest, c :: cs ≠ '-' :: '-' :: '>' :: rest) (rest tail : Text) :
    c :: (cs ++ stop :: rest) ≠ '-' :: '-' :: '>' :: tail := by
  intro htail
  rcases cs with _ | ⟨d, _ | ⟨e, cs⟩⟩
  · simp_all
  · simp_all
  · simp only [List.cons_append, List.cons.injEq] at htail
    obtain ⟨rfl, rfl, rfl, _⟩ := htail
    exact h cs rfl

theorem not_closing_append {c : Char} {cs : Text} (h : ∀ rest, c :: cs ≠ '-' :: '-' :: '>' :: rest)
    (rest tail : Text) : c :: (cs ++ '<' :: rest) ≠ '-' :: '-' :: '>' :: tail :=
  not_closing_append_stop (by decide) h rest tail

/-- The marks of comments do not reach across a character that stands in none of them, or only at
the head. -/
theorem maskLine_append_stop {stop : Char} (hstop : stop ∉ "!-->".toList) (inside : Bool)
    (front rest : Text) :
    maskLine inside (front ++ stop :: rest) =
      ((maskLine inside front).1 ++ (maskLine (maskLine inside front).2 (stop :: rest)).1,
        (maskLine (maskLine inside front).2 (stop :: rest)).2) := by
  have hclosing : stop ∉ "-->".toList := fun h => hstop (List.mem_cons_of_mem '!' h)
  have hopening : stop ∉ ['!', '-', '-'] := by simp_all
  fun_induction maskLine inside front with
  | case1 inside => rfl
  | case2 cs masked after heq ih =>
      simp only [List.cons_append, maskLine, ih, heq]
  | case3 c cs hmark masked after heq ih =>
      rw [List.cons_append,
        maskLine_inside (not_closing_append_stop hclosing (ne_closing hmark) rest), ih, heq]
      rfl
  | case4 c cs hopen masked after heq ih =>
      rw [List.cons_append, maskLine_opening, ih, heq]
      · rfl
      · rwa [Text.startsWith_append_cons hopening]
  | case5 c cs hopen masked after heq ih =>
      rw [List.cons_append, maskLine_outside, ih, heq]
      · rfl
      · rw [Text.startsWith_append_cons hopening]
        simpa using hopen

/-- The marks of comments do not reach across an opening bracket. -/
theorem maskLine_append_bracket (inside : Bool) (front rest : Text) :
    maskLine inside (front ++ '<' :: rest) =
      ((maskLine inside front).1 ++ (maskLine (maskLine inside front).2 ('<' :: rest)).1,
        (maskLine (maskLine inside front).2 ('<' :: rest)).2) :=
  maskLine_append_stop (by decide) inside front rest

theorem not_opening_of_shown {c : Char} {front rest : Text}
    (h : c :: front <+: (maskLine false (c :: rest)).1) :
    (c == '<' && Text.startsWith ['!', '-', '-'] rest) = false ∧
      front <+: (maskLine false rest).1 := by
  have hclosed : (c == '<' && Text.startsWith ['!', '-', '-'] rest) = false := by
    by_contra hopen
    rw [Bool.not_eq_false] at hopen
    rw [maskLine_opening hopen, List.cons_prefix_cons] at h
    rw [Bool.and_eq_true, beq_iff_eq, h.1] at hopen
    exact absurd hopen.1 (by decide)
  rw [maskLine_outside hclosed, List.cons_prefix_cons] at h
  exact ⟨hclosed, h.2⟩

theorem opens_iff {c : Char} {rest : Text} :
    (c == '<' && Text.startsWith ['!', '-', '-'] rest) = true ↔ "<!--".toList <+: c :: rest := by
  rw [Bool.and_eq_true, beq_iff_eq, Text.startsWith_iff_prefix]
  change _ ↔ '<' :: ['!', '-', '-'] <+: c :: rest
  rw [List.cons_prefix_cons, eq_comm]

/-- Text that masking leaves alone has no mark that opens a comment. -/
theorem not_infix_of_shown {front rest : Text}
    (h : front <+: (maskLine false (front ++ rest)).1) : ¬ "<!--".toList <:+: front := by
  induction front with
  | nil => decide
  | cons c front ih =>
      rw [List.cons_append] at h
      obtain ⟨hclosed, hfront⟩ := not_opening_of_shown h
      rw [List.infix_cons_iff, not_or]
      refine ⟨fun hmark => ?_, ih hfront⟩
      have hwhole : "<!--".toList <+: c :: (front ++ rest) :=
        hmark.trans (List.prefix_append (c :: front) rest)
      rw [← opens_iff, hclosed] at hwhole
      exact Bool.noConfusion hwhole

/-- Text that has no such mark and does not end within one is left alone. -/
theorem maskLine_append_of_not_infix {text : Text} (h : ¬ "<!--".toList <:+: text)
    (hlast : ∀ c ∈ text.getLast?, c ∉ "<!--".toList) (rest : Text) :
    maskLine false (text ++ rest) = (text ++ (maskLine false rest).1, (maskLine false rest).2) := by
  induction text with
  | nil => rfl
  | cons c text ih =>
      rw [List.infix_cons_iff, not_or] at h
      have hclosed : (c == '<' && Text.startsWith ['!', '-', '-'] (text ++ rest)) = false := by
        by_contra hopen
        rw [Bool.not_eq_false] at hopen
        rcases List.eq_nil_or_concat text with rfl | ⟨init, d, rfl⟩
        · rw [Bool.and_eq_true, beq_iff_eq] at hopen
          exact hlast c rfl (by simp [hopen.1])
        · rw [List.concat_eq_append] at h hlast hopen
          have hd : d ∉ "<!--".toList :=
            hlast d (by rw [← List.cons_append, List.getLast?_concat]; rfl)
          have htail : d ∉ ['!', '-', '-'] := fun hmem => hd (List.mem_cons_of_mem '<' hmem)
          rw [List.append_assoc, List.singleton_append, Text.startsWith_append_cons htail,
            opens_iff] at hopen
          exact h.1 (hopen.trans (List.prefix_append (c :: init) [d]))
      have htail : ∀ d ∈ text.getLast?, d ∉ "<!--".toList := by
        intro d hd
        apply hlast d
        rw [List.getLast?_cons, Option.mem_def.mp hd]
        rfl
      rw [List.cons_append, maskLine_outside hclosed, ih h.2 htail]
      rfl

end MarkupIds.Sfc
