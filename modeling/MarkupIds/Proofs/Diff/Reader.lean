import MarkupIds.Diff.Unified
import MarkupIds.Proofs.Text.Basic
import MarkupIds.Proofs.Text.Lines
import MarkupIds.Proofs.Text.Numeral

/-!
# Reading a unified diff

A reader goes through the lines of an old text. At the head of a hunk it passes on the lines before
the hunk; in the hunk, kept and removed lines must be the next old lines. It knows of a hunk's
length only from the head, and of the diff's lines only from the line feeds that end them.
-/

namespace MarkupIds.Diff

/-! ## Heads of hunks -/

def number? (t : Text) : Option ℕ :=
  if !t.isEmpty && t.all Text.isAsciiDigit then
    some (Text.foldDigits 10 (t.map fun c => c.toNat - '0'.toNat))
  else none

/-- The number of lines before a range and in it, from its first line, or the line before it if it
has none, and its length. -/
def place (first length : ℕ) : ℕ × ℕ :=
  (if length = 0 then first else first - 1, length)

def range? (t : Text) : Option (ℕ × ℕ) :=
  match Text.split ',' t with
  | [first] => do return place (← number? first) 1
  | [first, length] => do return place (← number? first) (← number? length)
  | _ => none

/-- The ranges in the head of a hunk. More text may stand behind them. -/
def head? (line : Text) : Option ((ℕ × ℕ) × (ℕ × ℕ)) :=
  match Text.split ' ' line with
  | ['@', '@'] :: ('-' :: old) :: ('+' :: new) :: ('@' :: '@' :: _) :: _ => do
    return (← range? old, ← range? new)
  | _ => none

/-! ## The reader -/

/-- How many old and new lines are left in the hunk, how many were passed and given so far, and the
old lines that are left. -/
structure Reader where
  olds : ℕ
  news : ℕ
  passed : ℕ
  given : ℕ
  rest : List Text
deriving DecidableEq, Repr

namespace Reader

/-- Reads one line of a diff: the text that it gives, and the reader behind it. -/
def next? (r : Reader) (line : Text) : Option (Text × Reader) :=
  if r.olds = 0 ∧ r.news = 0 then do
    let ((a, olds), (b, news)) ← head? line
    let skipped := a - r.passed
    if r.passed ≤ a ∧ skipped ≤ r.rest.length ∧ b = r.given + skipped ∧ 0 < olds + news then
      some ((r.rest.take skipped).flatten, ⟨olds, news, a, b, r.rest.drop skipped⟩)
    else none
  else
    match line, r with
    | ' ' :: body, ⟨olds + 1, news + 1, passed, given, old :: rest⟩ =>
      if body = old then some (body, ⟨olds, news, passed + 1, given + 1, rest⟩) else none
    | '-' :: body, ⟨olds + 1, news, passed, given, old :: rest⟩ =>
      if body = old then some ([], ⟨olds, news, passed + 1, given, rest⟩) else none
    | '+' :: body, ⟨olds, news + 1, passed, given, rest⟩ =>
      some (body, ⟨olds, news, passed, given + 1, rest⟩)
    | _, _ => none

/-- The text that the lines of a diff give. No hunk may be left open at their end. -/
def run? : Reader → List Text → Option Text
  | r, [] => if r.olds = 0 ∧ r.news = 0 then some r.rest.flatten else none
  | r, line :: lines => do
    let (text, r) ← r.next? line
    let later ← r.run? lines
    return text ++ later

end Reader

/-- Applies a diff to the lines of a text: two lines name the files, hunks follow. -/
def patched? (olds : List Text) (diff : Text) : Option Text :=
  match Text.feedLines diff with
  | [] => some olds.flatten
  | old :: new :: lines =>
    if Text.startsWith "--- ".toList old && Text.startsWith "+++ ".toList new then
      Reader.run? ⟨0, 0, 0, 0, olds⟩ lines
    else none
  | _ => none

/-! ## Written heads -/

theorem number?_decimal (n : ℕ) : number? (Text.decimal n) = some n := by
  have hall : (Text.decimal n).all Text.isAsciiDigit = true :=
    List.all_eq_true.mpr Text.isAsciiDigit_of_mem_decimal
  have hne : (Text.decimal n).isEmpty = false :=
    List.isEmpty_eq_false_iff.mpr (Text.ofNat_ne_nil (by decide) n)
  rw [number?, hall, hne, Text.foldDigits_decimal]
  rfl

theorem not_mem_range {c : Char} (h : Text.isBase36Digit c = false) (hc : c ≠ ',')
    (start stop : ℕ) : c ∉ range start stop := by
  unfold range
  dsimp only
  split
  · exact Text.not_mem_decimal h _
  · simp [Text.not_mem_decimal h, hc]

theorem range?_range (start stop : ℕ) :
    range? (range start stop) = some (start, stop - start) := by
  have hcomma (n : ℕ) : ',' ∉ Text.decimal n := Text.not_mem_decimal rfl n
  unfold range
  dsimp only
  split
  · rename_i hone
    have hsplit : Text.split ',' (Text.decimal (start + 1)) = [Text.decimal (start + 1)] := by
      have hjoin := @Text.split_join ',' [Text.decimal (start + 1)] (by simp [hcomma]) (by simp)
      simpa [Text.join_cons] using hjoin
    simp [range?, hsplit, number?_decimal, place, beq_iff_eq.mp hone]
  · rename_i hmany
    have hsplit (m n : ℕ) : Text.split ',' (Text.decimal m ++ ',' :: Text.decimal n) =
        [Text.decimal m, Text.decimal n] := by
      have hjoin := @Text.split_join ',' [Text.decimal m, Text.decimal n] (by simp [hcomma])
        (by simp)
      simpa [Text.join_cons] using hjoin
    simp only [range?, hsplit, number?_decimal, place]
    by_cases hnone : stop - start = 0 <;> simp [hnone]

/-- The head of a hunk of `olds` and `news` lines behind `a` and `b` lines. -/
def hunkHead (a olds b news : ℕ) : Text :=
  "@@ -".toList ++ range a (a + olds) ++ " +".toList ++ range b (b + news) ++ " @@\n".toList

theorem hunkHead_head? (a olds b news : ℕ) : (hunkHead a olds b news).head? = some '@' :=
  rfl

theorem hunkHead_ne_nil (a olds b news : ℕ) : hunkHead a olds b news ≠ [] :=
  List.cons_ne_nil '@' _

theorem head?_hunkHead (a olds b news : ℕ) :
    head? (hunkHead a olds b news) = some ((a, olds), (b, news)) := by
  have hspace (start stop : ℕ) : ' ' ∉ range start stop := not_mem_range rfl (by decide) start stop
  have hsplit : Text.split ' ' (hunkHead a olds b news) =
      [['@', '@'], '-' :: range a (a + olds), '+' :: range b (b + news), ['@', '@', '\n']] := by
    have hjoin : hunkHead a olds b news = Text.join [' ']
        [['@', '@'], '-' :: range a (a + olds), '+' :: range b (b + news), ['@', '@', '\n']] := by
      unfold hunkHead
      simp [Text.join_cons]
    rw [hjoin]
    refine Text.split_join ?_ (List.cons_ne_nil _ _)
    simp [hspace]
  simp [head?, hsplit, range?_range]

theorem head?_eq_none {c : Char} (hc : c ≠ '@') (line : Text) : head? (c :: line) = none := by
  rw [head?, Text.split, Text.splitWhere]
  by_cases hspace : c = ' '
  · simp [hspace]
  · cases Text.splitWhere (· == ' ') line <;> simp [hspace, hc]

namespace Reader

/-! ## One line -/

theorem next?_hunkHead (a b : ℕ) {olds news : ℕ} (hsome : 0 < olds + news)
    (skipped rest : List Text) :
    next? ⟨0, 0, a, b, skipped ++ rest⟩
        (hunkHead (a + skipped.length) olds (b + skipped.length) news) =
      some (skipped.flatten, ⟨olds, news, a + skipped.length, b + skipped.length, rest⟩) := by
  have hlines : olds = 0 → ¬ news = 0 := by omega
  simpa [next?, head?_hunkHead, Nat.add_comm a] using hlines

theorem next?_keep (olds news a b : ℕ) (line body : Text) (rest : List Text) :
    next? ⟨olds + 1, news + 1, a, b, line :: rest⟩ (' ' :: body) =
      if body = line then some (body, ⟨olds, news, a + 1, b + 1, rest⟩) else none := by
  simp [next?]

theorem next?_remove (olds news a b : ℕ) (line body : Text) (rest : List Text) :
    next? ⟨olds + 1, news, a, b, line :: rest⟩ ('-' :: body) =
      if body = line then some ([], ⟨olds, news, a + 1, b, rest⟩) else none := by
  simp [next?]

theorem next?_add (olds news a b : ℕ) (body : Text) (rest : List Text) :
    next? ⟨olds, news + 1, a, b, rest⟩ ('+' :: body) =
      some (body, ⟨olds, news, a, b + 1, rest⟩) := by
  simp [next?]

/-- Between hunks only a head can be read. -/
theorem next?_eq_none {a b : ℕ} {rest : List Text} {c : Char} (hc : c ≠ '@') (line : Text) :
    next? ⟨0, 0, a, b, rest⟩ (c :: line) = none := by
  simp [next?, head?_eq_none hc]

/-- What a reader does at the head of a hunk. -/
theorem exists_of_next? {r r' : Reader} {line text : Text} (hdue : r.olds = 0 ∧ r.news = 0)
    (h : r.next? line = some (text, r')) :
    ∃ a olds b news, head? line = some ((a, olds), (b, news)) ∧ r.passed ≤ a ∧
      b = r.given + (a - r.passed) ∧ 0 < olds + news ∧
      r' = ⟨olds, news, a, b, r.rest.drop (a - r.passed)⟩ := by
  unfold next? at h
  rw [if_pos hdue] at h
  obtain ⟨⟨⟨a, olds⟩, b, news⟩, hhead, hplace⟩ := Option.bind_eq_some_iff.mp h
  dsimp only at hplace
  split at hplace
  · rename_i hfits
    exact ⟨a, olds, b, news, hhead, hfits.1, hfits.2.2.1, hfits.2.2.2,
      (Prod.mk.inj (Option.some.inj hplace)).2.symm⟩
  · exact nomatch hplace

/-- The end of the hunk that is read, or of the last one, moves on only. -/
theorem le_of_next? {r r' : Reader} {line text : Text} (h : r.next? line = some (text, r')) :
    r.passed + r.olds ≤ r'.passed + r'.olds ∧ r.given + r.news ≤ r'.given + r'.news := by
  by_cases hdue : r.olds = 0 ∧ r.news = 0
  · obtain ⟨a, olds, b, news, _, hpassed, hgiven, _, rfl⟩ := exists_of_next? hdue h
    dsimp only
    omega
  · unfold next? at h
    rw [if_neg hdue] at h
    split at h
    · split at h
      · obtain ⟨-, rfl⟩ := Prod.mk.inj (Option.some.inj h)
        dsimp only
        omega
      · exact nomatch h
    · split at h
      · obtain ⟨-, rfl⟩ := Prod.mk.inj (Option.some.inj h)
        dsimp only
        omega
      · exact nomatch h
    · obtain ⟨-, rfl⟩ := Prod.mk.inj (Option.some.inj h)
      dsimp only
      omega
    · exact nomatch h

/-- In a hunk no head can be read. -/
theorem next?_at_eq_none {r : Reader} (h : ¬ (r.olds = 0 ∧ r.news = 0)) (line : Text) :
    r.next? ('@' :: line) = none := by
  simp [next?, h]

/-! ## Whole diffs -/

/-- Lines that lead a reader to new lines. A hunk has lines, and no line is removed right behind one
that was added. -/
inductive Reads : Reader → List Text → List Text → Prop
  | done (a b : ℕ) (rest : List Text) : Reads ⟨0, 0, a, b, rest⟩ [] rest
  | head {olds news a b : ℕ} (skipped : List Text) {rest lines new : List Text}
      (hsome : 0 < olds + news)
      (hlater : Reads ⟨olds, news, a + skipped.length, b + skipped.length, rest⟩ lines new) :
      Reads ⟨0, 0, a, b, skipped ++ rest⟩
        (hunkHead (a + skipped.length) olds (b + skipped.length) news :: lines) (skipped ++ new)
  | keep {olds news a b : ℕ} (line : Text) {rest lines new : List Text}
      (hlater : Reads ⟨olds, news, a + 1, b + 1, rest⟩ lines new) :
      Reads ⟨olds + 1, news + 1, a, b, line :: rest⟩ ((' ' :: line) :: lines) (line :: new)
  | remove {olds news a b : ℕ} (line : Text) {rest lines new : List Text}
      (hlater : Reads ⟨olds, news, a + 1, b, rest⟩ lines new) :
      Reads ⟨olds + 1, news, a, b, line :: rest⟩ (('-' :: line) :: lines) new
  | add {olds news a b : ℕ} (line : Text) {rest lines new : List Text}
      (hlater : Reads ⟨olds, news, a, b + 1, rest⟩ lines new)
      (hnext : ∀ next ∈ lines.head?, next.head? ≠ some '-') :
      Reads ⟨olds, news + 1, a, b, rest⟩ (('+' :: line) :: lines) (line :: new)

/-- Every line is the head of a hunk, or a line of one of the lists behind a mark. -/
theorem Reads.forall_line {P : Text → Prop} {r : Reader} {lines new : List Text}
    (h : Reads r lines new) (hhead : ∀ a olds b news, P (hunkHead a olds b news))
    (hmark : ∀ mark ∈ [' ', '-', '+'], ∀ line ∈ r.rest ++ new, P (mark :: line)) :
    ∀ line ∈ lines, P line := by
  induction h with
  | done => simp
  | head skipped hsome hlater ih =>
      simp only [List.mem_cons, forall_eq_or_imp]
      refine ⟨hhead _ _ _ _, ih fun mark hm line hline => hmark mark hm line ?_⟩
      simp only [List.mem_append] at hline ⊢
      tauto
  | keep line hlater ih =>
      simp only [List.mem_cons, forall_eq_or_imp]
      refine ⟨hmark ' ' (by simp) line (by simp), ih fun mark hm line hline => ?_⟩
      refine hmark mark hm line ?_
      simp only [List.mem_append, List.mem_cons] at hline ⊢
      tauto
  | remove line hlater ih =>
      simp only [List.mem_cons, forall_eq_or_imp]
      refine ⟨hmark '-' (by simp) line (by simp), ih fun mark hm line hline => ?_⟩
      refine hmark mark hm line ?_
      simp only [List.mem_append, List.mem_cons] at hline ⊢
      tauto
  | add line hlater hnext ih =>
      simp only [List.mem_cons, forall_eq_or_imp]
      refine ⟨hmark '+' (by simp) line (by simp), ih fun mark hm line hline => ?_⟩
      refine hmark mark hm line ?_
      simp only [List.mem_append, List.mem_cons] at hline ⊢
      tauto

theorem run?_cons {r r' : Reader} {line text : Text} (h : r.next? line = some (text, r'))
    (lines : List Text) : r.run? (line :: lines) = (r'.run? lines).map (text ++ ·) := by
  cases hlater : r'.run? lines <;> simp [run?, h, hlater]

theorem run?_cons_eq_none {r : Reader} {line : Text} (h : r.next? line = none)
    (lines : List Text) : r.run? (line :: lines) = none := by
  simp [run?, h]

theorem run?_behind_hunk {head : Text} {a olds b news : ℕ}
    (hhead : head? head = some ((a, olds), (b, news))) (hsome : 0 < olds + news)
    (front back : List Text) {r : Reader} (hpassed : a + olds ≤ r.passed + r.olds)
    (hgiven : b + news ≤ r.given + r.news) : r.run? (front ++ head :: back) = none := by
  induction front generalizing r with
  | nil =>
      refine run?_cons_eq_none ?_ back
      by_cases hdue : r.olds = 0 ∧ r.news = 0
      · cases hnext : r.next? head with
        | none => rfl
        | some result =>
            obtain ⟨a', olds', b', news', hhead', hle, hplace, _⟩ := exists_of_next? hdue hnext
            simp only [hhead, Option.some.injEq, Prod.mk.injEq] at hhead'
            omega
      · cases head with
        | nil => simp [head?, Text.split, Text.splitWhere] at hhead
        | cons c head =>
            obtain rfl : c = '@' := by
              by_contra hc
              simp [head?_eq_none hc] at hhead
            exact next?_at_eq_none hdue head
  | cons line front ih =>
      rw [List.cons_append]
      cases hnext : r.next? line with
      | none => exact run?_cons_eq_none hnext _
      | some result =>
          obtain ⟨text, r'⟩ := result
          have hle := le_of_next? hnext
          rw [run?_cons hnext, ih (by omega) (by omega)]
          rfl

/-- What is read as the head of a hunk cannot come again. -/
theorem run?_head_twice {r : Reader} (hdue : r.olds = 0 ∧ r.news = 0) (head : Text)
    (front back : List Text) : r.run? (head :: (front ++ head :: back)) = none := by
  cases hnext : r.next? head with
  | none => exact run?_cons_eq_none hnext _
  | some result =>
      obtain ⟨text, r'⟩ := result
      obtain ⟨a, olds, b, news, hhead, _, _, hsome, hr'⟩ := exists_of_next? hdue hnext
      rw [run?_cons hnext, run?_behind_hunk hhead hsome front back (by simp [hr']) (by simp [hr'])]
      rfl

/-- Reading gives the new lines. -/
theorem Reads.run? {r : Reader} {lines new : List Text} (h : Reads r lines new) :
    r.run? lines = some new.flatten := by
  induction h with
  | done a b rest => simp [Reader.run?]
  | @head olds news a b skipped rest lines new hsome hlater ih =>
      rw [run?_cons (next?_hunkHead a b hsome skipped rest), ih]
      simp
  | @keep olds news a b line rest lines new hlater ih =>
      rw [run?_cons ((next?_keep ..).trans (if_pos rfl)), ih]
      simp
  | @remove olds news a b line rest lines new hlater ih =>
      rw [run?_cons ((next?_remove ..).trans (if_pos rfl)), ih]
      simp
  | @add olds news a b line rest lines new hlater hnext ih =>
      rw [run?_cons (next?_add ..), ih]
      simp

/-! ## Lines that run together -/

theorem exists_hunkHead_eq (a olds b news : ℕ) :
    ∃ front : Text, '\n' ∉ front ∧ hunkHead a olds b news = front ++ ['\n'] := by
  have hfeed (start stop : ℕ) : '\n' ∉ range start stop := not_mem_range rfl (by decide) start stop
  have hend : " @@\n".toList = " @@".toList ++ ['\n'] := rfl
  refine ⟨"@@ -".toList ++ range a (a + olds) ++ " +".toList ++ range b (b + news) ++
    " @@".toList, by simp [hfeed], ?_⟩
  unfold hunkHead
  rw [hend]
  simp only [List.append_assoc]

theorem isLine_hunkHead (a olds b news : ℕ) : Text.IsLine (hunkHead a olds b news) := by
  obtain ⟨front, hfront, heq⟩ := exists_hunkHead_eq a olds b news
  rw [heq]
  exact ⟨by simp, by simpa using hfront⟩

theorem fed_hunkHead (a olds b news : ℕ) : Text.Fed (hunkHead a olds b news) := by
  obtain ⟨front, _, heq⟩ := exists_hunkHead_eq a olds b news
  simp [Text.Fed, heq]

theorem feedLines_hunkHead (a olds b news : ℕ) (t : Text) :
    Text.feedLines (hunkHead a olds b news ++ t) = hunkHead a olds b news :: Text.feedLines t :=
  (isLine_hunkHead a olds b news).feedLines_append (fed_hunkHead a olds b news) t

theorem eq_of_cons_append_eq {mark : Char} {line t u : Text}
    (h : mark :: (line ++ t) = line ++ u) : ∀ c ∈ line, c = mark := by
  induction line with
  | nil => simp
  | cons d line ih =>
      obtain ⟨rfl, hrest⟩ := List.cons.inj h
      simpa using ih hrest

/-- A mark in front of a line is seen: the line would have to be made of marks, up to its end. -/
theorem cons_append_ne {mark : Char} (hmark : Text.isLineEnd mark = false) {line : Text}
    {lines : List Text} (h : Text.AreLines (line :: lines)) (t : Text) :
    mark :: (line ++ t) ≠ line ++ lines.flatten := by
  intro heq
  cases lines with
  | nil =>
      have hlength := congrArg List.length heq
      simp only [List.length_cons, List.length_append, List.flatten_nil, List.append_nil] at hlength
      omega
  | cons next lines =>
      obtain ⟨c, hlast, hc⟩ := h.ended line (by simp)
      have hmem : c ∈ line := List.mem_of_getLast? hlast
      rw [eq_of_cons_append_eq heq c hmem, hmark] at hc
      exact Bool.noConfusion hc

/-- A hunk with lines to come starts with a mark. -/
theorem Reads.exists_mark {olds news a b : ℕ} {rest lines new : List Text}
    (h : Reads ⟨olds, news, a, b, rest⟩ lines new) (hsome : 0 < olds + news) :
    ∃ mark line later, mark ≠ '@' ∧ lines = (mark :: line) :: later := by
  cases h with
  | done => simp at hsome
  | head => simp at hsome
  | keep line => exact ⟨' ', line, _, by decide, rfl⟩
  | remove line => exact ⟨'-', line, _, by decide, rfl⟩
  | add line => exact ⟨'+', line, _, by decide, rfl⟩

theorem marked_ne {mark : Char} (hmark : Text.isLineEnd mark = false) {line : Text}
    {lines new : List Text} (h : Text.AreLines (line :: new)) {piece : Text} {pieces : List Text}
    (hpieces : Text.feedLines ((mark :: line) :: lines).flatten = piece :: pieces) (later : Text) :
    piece ++ later ≠ (line :: new).flatten := by
  have hfeed : mark ≠ '\n' := by
    rintro rfl
    exact Bool.noConfusion hmark
  have hline := (h.isLine line List.mem_cons_self).cons hfeed
  obtain ⟨back, _, hfirst, _⟩ := hline.exists_feedLines_append lines.flatten
  rw [List.flatten_cons, hfirst] at hpieces
  obtain ⟨rfl, _⟩ := List.cons.inj hpieces
  simpa using cons_append_ne hmark h (back ++ later)

/-- Where an added line runs on, the lines behind it do not give the rest of the text. -/
theorem Reads.run?_tail_ne {r : Reader} {lines new : List Text} (h : Reads r lines new)
    (hne : lines ≠ []) (hnext : ∀ next ∈ lines.head?, next.head? ≠ some '-')
    (hnew : Text.AreLines new) {piece later : Text} {pieces : List Text}
    (hpieces : Text.feedLines lines.flatten = piece :: pieces)
    (hrun : r.run? pieces = some later) : piece ++ later ≠ new.flatten := by
  cases h with
  | done => exact absurd rfl hne
  | head skipped hsome hlater =>
      -- The head is lost in the added line, and a marked line stands where it is due.
      obtain ⟨mark, line, more, hmark, rfl⟩ := hlater.exists_mark hsome
      rw [List.flatten_cons, feedLines_hunkHead, List.flatten_cons, List.cons_append] at hpieces
      obtain ⟨rfl, rfl⟩ := List.cons.inj hpieces
      have hsingle : Text.IsLine [mark] := ⟨by simp, by simp⟩
      obtain ⟨back, others, hfirst, _⟩ := hsingle.exists_feedLines_append (line ++ more.flatten)
      rw [List.singleton_append] at hfirst
      rw [hfirst, Reader.run?, List.singleton_append, next?_eq_none hmark] at hrun
      exact nomatch hrun
  | keep line hlater => exact marked_ne rfl hnew hpieces later
  | remove line hlater => exact absurd rfl (hnext _ rfl)
  | add line hlater _ => exact marked_ne rfl hnew hpieces later

theorem Reads.flatten_ne_nil {r : Reader} {lines new : List Text} (h : Reads r lines new)
    (hne : lines ≠ []) : lines.flatten ≠ [] := by
  cases h <;> simp_all [hunkHead_ne_nil]

theorem run?_feedLines_append_ne {r r' : Reader} {line text t u : Text} (hline : Text.IsLine line)
    (hfed : Text.Fed line) (hnext : r.next? line = some (text, r'))
    (hlater : r'.run? (Text.feedLines t) ≠ some u) :
    r.run? (Text.feedLines (line ++ t)) ≠ some (text ++ u) := by
  rw [hline.feedLines_append hfed, run?_cons hnext]
  simpa [Option.map_eq_some_iff] using hlater

/-- A line that must be the next old line is not, once it runs on. -/
theorem run?_feedLines_append_eq_none {r : Reader} {mark : Char} {line t : Text}
    (hline : Text.IsLine (mark :: line)) (hopen : ¬ Text.Fed (mark :: line)) (ht : t ≠ [])
    (hnext : ∀ body ≠ line, r.next? (mark :: body) = none) :
    r.run? (Text.feedLines (mark :: line ++ t)) = none := by
  obtain ⟨piece, pieces, _, hpiece, hrun⟩ := hline.feedLines_run_on hopen ht
  rw [hrun, List.cons_append, run?_cons_eq_none (hnext _ (by simpa using hpiece))]

theorem open_cons {first : Text} {later : List Text}
    (h : ∃ line ∈ (first :: later).dropLast, ¬ Text.Fed line) :
    later ≠ [] ∧ (Text.Fed first → ∃ line ∈ later.dropLast, ¬ Text.Fed line) := by
  obtain ⟨line, hline, hopen⟩ := h
  cases later with
  | nil => simp at hline
  | cons next later =>
      refine ⟨by simp, fun hfed => ⟨line, ?_, hopen⟩⟩
      rcases List.mem_cons.mp hline with rfl | hline
      · exact absurd hfed hopen
      · exact hline

/-- If some line but the last has no line feed at its end, the text is not read back. -/
theorem Reads.run?_feedLines_ne {r : Reader} {lines new : List Text} (h : Reads r lines new)
    (hrest : ∀ line ∈ r.rest, Text.IsLine line) (hnew : Text.AreLines new)
    (hopen : ∃ line ∈ lines.dropLast, ¬ Text.Fed line) :
    r.run? (Text.feedLines lines.flatten) ≠ some new.flatten := by
  induction h with
  | done a b rest => simp at hopen
  | @head olds news a b skipped rest lines new hsome hlater ih =>
      rw [List.flatten_cons, List.flatten_append]
      have hfed := fed_hunkHead (a + skipped.length) olds (b + skipped.length) news
      refine run?_feedLines_append_ne (isLine_hunkHead ..) hfed
        (next?_hunkHead a b hsome skipped rest) (ih ?_ hnew.of_append ((open_cons hopen).2 hfed))
      exact fun line hline => hrest line (List.mem_append_right skipped hline)
  | @keep olds news a b line rest lines new hlater ih =>
      obtain ⟨hne, hlast⟩ := open_cons hopen
      have hline : Text.IsLine (' ' :: line) := (hnew.isLine line (by simp)).cons (by decide)
      rw [List.flatten_cons, List.flatten_cons]
      by_cases hfed : Text.Fed (' ' :: line)
      · refine run?_feedLines_append_ne hline hfed ((next?_keep ..).trans (if_pos rfl))
          (ih ?_ hnew.tail (hlast hfed))
        exact fun line hline => hrest line (List.mem_cons_of_mem _ hline)
      · rw [run?_feedLines_append_eq_none hline hfed (hlater.flatten_ne_nil hne)
          fun body hbody => (next?_keep ..).trans (if_neg hbody)]
        exact nofun
  | @remove olds news a b line rest lines new hlater ih =>
      obtain ⟨hne, hlast⟩ := open_cons hopen
      have hline : Text.IsLine ('-' :: line) := (hrest line (by simp)).cons (by decide)
      rw [List.flatten_cons]
      by_cases hfed : Text.Fed ('-' :: line)
      · refine run?_feedLines_append_ne hline hfed ((next?_remove ..).trans (if_pos rfl))
          (ih ?_ hnew (hlast hfed))
        exact fun line hline => hrest line (List.mem_cons_of_mem _ hline)
      · rw [run?_feedLines_append_eq_none hline hfed (hlater.flatten_ne_nil hne)
          fun body hbody => (next?_remove ..).trans (if_neg hbody)]
        exact nofun
  | @add olds news a b line rest lines new hlater hnext ih =>
      obtain ⟨hne, hlast⟩ := open_cons hopen
      have hline : Text.IsLine ('+' :: line) := (hnew.isLine line (by simp)).cons (by decide)
      rw [List.flatten_cons, List.flatten_cons]
      by_cases hfed : Text.Fed ('+' :: line)
      · exact run?_feedLines_append_ne hline hfed (next?_add ..) (ih hrest hnew.tail (hlast hfed))
      · obtain ⟨piece, pieces, hpieces, _, hrun⟩ :=
          hline.feedLines_run_on hfed (hlater.flatten_ne_nil hne)
        rw [hrun, List.cons_append, run?_cons (next?_add ..)]
        intro hsame
        obtain ⟨later, hlater', htext⟩ := Option.map_eq_some_iff.mp hsame
        rw [List.append_assoc] at htext
        exact hlater.run?_tail_ne hne hnext hnew.tail hpieces hlater'
          (List.append_cancel_left htext)

end Reader

end MarkupIds.Diff
