import MarkupIds.Proofs.Text.Basic
import MarkupIds.Selector.Reader
import Mathlib.Data.List.TakeWhile

/-!
# Simple parts of selectors

A class, an id or an attribute test is read alike whether or not others follow it. The exception is
a test whose value starts with a quote that is closed in a later test only.
-/

namespace MarkupIds.Selector

/-- A simple part, and nothing behind it. -/
def IsPart (t : Text) : Prop :=
  ∃ p, part? t = some (p, [])

instance (t : Text) : Decidable (IsPart t) :=
  decidable_of_iff ((part? t).any (·.2.isEmpty) = true) (by
    rw [IsPart, Option.any_eq_true]
    simp)

/-- The quote that the value of a test starts with, if the test does not close it. -/
def openQuote? (t : Text) : Option Char :=
  match (t.dropWhile (· != '=')).tail.dropWhile Text.isBlank with
  | q :: body => if (q == '"' || q == '\'') && !body.contains q then some q else none
  | [] => none

/-- A quote that a part leaves open is closed behind it, at the end of a test. -/
def runsOn (t rest : Text) : Bool :=
  (openQuote? t).any fun q => (closeBracket? (rest.dropWhile (· != q)).tail).isSome

/-! ## Ends of parts -/

theorem exists_of_closeBracket? {cs rest : Text} (h : closeBracket? cs = some rest) :
    ∃ front, cs = front ++ ']' :: rest := by
  unfold closeBracket? at h
  split at h
  · rename_i after hafter
    obtain rfl := Option.some.inj h
    exact ⟨cs.takeWhile Text.isBlank, by rw [← hafter, List.takeWhile_append_dropWhile]⟩
  · exact nomatch h

theorem exists_of_quotedValue? {quote : Char} {cs value rest : Text}
    (h : quotedValue? quote cs = some (value, rest)) : ∃ front, cs = front ++ ']' :: rest := by
  unfold quotedValue? at h
  split at h
  · exact nomatch h
  · rename_i c body
    split at h
    · split at h
      · exact nomatch h
      · rename_i d after hafter
        obtain ⟨rest', hclose, hpair⟩ := Option.map_eq_some_iff.mp h
        obtain ⟨-, rfl⟩ := Prod.mk.inj hpair
        obtain ⟨front, rfl⟩ := exists_of_closeBracket? hclose
        refine ⟨c :: (body.takeWhile (· != quote) ++ d :: front), ?_⟩
        rw [List.cons_append, List.append_assoc, List.cons_append, ← hafter,
          List.takeWhile_append_dropWhile]
    · exact nomatch h

theorem exists_of_bareValue? {cs value rest : Text} (h : bareValue? cs = some (value, rest)) :
    ∃ front, cs = front ++ ']' :: rest := by
  obtain ⟨rest', hclose, hpair⟩ := Option.map_eq_some_iff.mp h
  obtain ⟨-, rfl⟩ := Prod.mk.inj hpair
  obtain ⟨front, hfront⟩ := exists_of_closeBracket? hclose
  refine ⟨cs.takeWhile (fun c => c != ']' && !Text.isBlank c) ++ front, ?_⟩
  rw [List.append_assoc, ← hfront, List.takeWhile_append_dropWhile]

/-- A value ends with the bracket. -/
theorem exists_of_value? {cs value rest : Text} (h : value? cs = some (value, rest)) :
    ∃ front, cs = front ++ ']' :: rest := by
  rcases Option.or_eq_some_iff.mp h with hquoted | ⟨-, hbare⟩
  · rcases Option.or_eq_some_iff.mp hquoted with hdouble | ⟨-, hsingle⟩
    · exact exists_of_quotedValue? hdouble
    · exact exists_of_quotedValue? hsingle
  · exact exists_of_bareValue? hbare

/-- The end of an attribute test, behind its name and blanks. -/
def testEnd (cs : Text) : Text :=
  ((cs.dropWhile Text.isBlank).dropWhile isAttributeChar).dropWhile Text.isBlank

theorem attributePart?_eq (cs : Text) :
    attributePart? cs =
      if ((cs.dropWhile Text.isBlank).takeWhile isAttributeChar).isEmpty then none
      else attributeEnd? ((cs.dropWhile Text.isBlank).takeWhile isAttributeChar) (testEnd cs) := rfl

theorem exists_append_testEnd (cs : Text) : ∃ front, cs = front ++ testEnd cs ∧ '=' ∉ front := by
  have hpass : ∀ (p : Char → Bool), p '=' = false → ∀ t : Text,
      ∃ front, t = front ++ t.dropWhile p ∧ '=' ∉ front := by
    intro p hp t
    refine ⟨t.takeWhile p, List.takeWhile_append_dropWhile.symm, fun hmem => ?_⟩
    rw [List.mem_takeWhile_imp hmem] at hp
    exact Bool.noConfusion hp
  obtain ⟨before, hbefore, hb⟩ := hpass Text.isBlank (by decide) cs
  obtain ⟨name, hname, hn⟩ := hpass isAttributeChar (by decide) (cs.dropWhile Text.isBlank)
  obtain ⟨after, hafter, ha⟩ := hpass Text.isBlank (by decide)
    ((cs.dropWhile Text.isBlank).dropWhile isAttributeChar)
  refine ⟨before ++ (name ++ after), ?_, by simp [hb, hn, ha]⟩
  rw [testEnd, List.append_assoc, List.append_assoc, ← hafter, ← hname, ← hbefore]

theorem exists_of_attributeEnd? {name cs rest : Text} {p : Part}
    (h : attributeEnd? name cs = some (p, rest)) :
    ∃ front value, cs = front ++ ']' :: rest ∧ p = .attr name value := by
  unfold attributeEnd? at h
  split at h
  · obtain ⟨rfl, rfl⟩ := Prod.mk.inj (Option.some.inj h)
    exact ⟨[], none, rfl, rfl⟩
  · rename_i after
    obtain ⟨⟨value, rest'⟩, hvalue, hpair⟩ := Option.map_eq_some_iff.mp h
    obtain ⟨rfl, rfl⟩ := Prod.mk.inj hpair
    obtain ⟨front, hfront⟩ := exists_of_value? hvalue
    refine ⟨'=' :: (after.takeWhile Text.isBlank ++ front), some value, ?_, rfl⟩
    rw [List.cons_append, List.append_assoc, ← hfront, List.takeWhile_append_dropWhile]
  · exact nomatch h

theorem exists_of_attributePart? {cs rest : Text} {p : Part}
    (h : attributePart? cs = some (p, rest)) :
    ∃ front name value, cs = front ++ ']' :: rest ∧ p = .attr name value := by
  rw [attributePart?_eq] at h
  split at h
  · exact nomatch h
  · obtain ⟨front, hfront, _⟩ := exists_append_testEnd cs
    obtain ⟨middle, value, hmiddle, hp⟩ := exists_of_attributeEnd? h
    exact ⟨front ++ middle, _, value, by rw [List.append_assoc, ← hmiddle, ← hfront], hp⟩

/-- What a part can be: a class or an id, with its name, or an attribute test, with its bracket. -/
theorem part?_cases {t : Text} {p : Part} (h : part? t = some (p, [])) :
    (∃ name, t = '.' :: name ∧ p = .cls name ∧ name ≠ [] ∧ ∀ c ∈ name, isNameChar c = true) ∨
    (∃ name, t = '#' :: name ∧ p = .id name ∧ name ≠ [] ∧ ∀ c ∈ name, isNameChar c = true) ∨
    ∃ front name value, t = '[' :: (front ++ [']']) ∧ p = .attr name value ∧
      attributePart? (front ++ [']']) = some (p, []) := by
  have hname : ∀ {make : Text → Part} {cs : Text}, namedPart? make cs = some (p, []) →
      p = make cs ∧ cs ≠ [] ∧ ∀ c ∈ cs, isNameChar c = true := by
    intro make cs h
    unfold namedPart? at h
    dsimp only at h
    split at h
    · exact nomatch h
    · rename_i hne
      obtain ⟨rfl, hrest⟩ := Prod.mk.inj (Option.some.inj h)
      have hall := List.dropWhile_eq_nil_iff.mp hrest
      rw [List.takeWhile_eq_self_iff.mpr hall] at hne ⊢
      exact ⟨rfl, by simpa using hne, hall⟩
  unfold part? at h
  split at h
  · rename_i cs
    obtain ⟨rfl, hne, hall⟩ := hname h
    exact .inl ⟨cs, rfl, rfl, hne, hall⟩
  · rename_i cs
    obtain ⟨rfl, hne, hall⟩ := hname h
    exact .inr (.inl ⟨cs, rfl, rfl, hne, hall⟩)
  · obtain ⟨front, name, value, rfl, hp⟩ := exists_of_attributePart? h
    exact .inr (.inr ⟨front, name, value, rfl, hp, h⟩)
  · exact nomatch h

/-! ## Reading on -/

/-- What is read in front of more text: the same, with the text behind it. -/
def readOn {α : Type} (rest : Text) (r : Option (α × Text)) : Option (α × Text) :=
  r.map fun (a, after) => (a, after ++ rest)

theorem closeBracket?_append (front rest : Text) :
    closeBracket? (front ++ ']' :: rest) = (closeBracket? (front ++ [']'])).map (· ++ rest) := by
  unfold closeBracket?
  rw [Text.dropWhile_append_cons (by decide), Text.dropWhile_append_cons (by decide)]
  cases front.dropWhile Text.isBlank with
  | nil => rfl
  | cons c front =>
      by_cases hc : c = ']'
      · subst hc
        simp
      · simp [hc]

theorem bareValue?_append (front rest : Text) :
    bareValue? (front ++ ']' :: rest) = readOn rest (bareValue? (front ++ [']'])) := by
  unfold bareValue?
  dsimp only
  rw [Text.dropWhile_append_cons (by decide), Text.dropWhile_append_cons (by decide),
    Text.takeWhile_append _ (by simp), Text.takeWhile_append _ (by simp), closeBracket?_append]
  simp only [readOn, Option.map_map]
  rfl

theorem quotedValue?_closed {quote : Char} {value : Text} (h : quote ∉ value) (after : Text) :
    quotedValue? quote (quote :: (value ++ quote :: after)) =
      (closeBracket? after).map fun rest => (value, rest) := by
  have hstop : ∀ c ∈ (quote :: after).head?, (c != quote) = false := by simp
  simp only [quotedValue?, beq_self_eq_true, if_true,
    Text.dropWhile_append_stop (Text.bne_of_not_mem h) hstop,
    Text.takeWhile_append_stop (Text.bne_of_not_mem h) hstop]

theorem quotedValue?_unclosed {quote : Char} {body rest : Text} (h : quote ∉ body)
    (hrest : closeBracket? (rest.dropWhile (· != quote)).tail = none) :
    quotedValue? quote (quote :: (body ++ rest)) = none := by
  simp only [quotedValue?, beq_self_eq_true, if_true,
    List.dropWhile_append_of_pos (Text.bne_of_not_mem h)]
  split
  · rfl
  · rename_i hafter
    rw [hafter, List.tail_cons] at hrest
    rw [hrest, Option.map_none]

theorem quotedValue?_append {quote : Char} (hquote : quote ≠ ']') {front rest : Text}
    (h : ∀ body, front = quote :: body → quote ∉ body →
      closeBracket? (rest.dropWhile (· != quote)).tail = none) :
    quotedValue? quote (front ++ ']' :: rest) = readOn rest (quotedValue? quote (front ++ [']'])) := by
  cases front with
  | nil => simp [quotedValue?, readOn, Ne.symm hquote]
  | cons c body =>
      by_cases hc : c = quote
      · subst hc
        -- A quote that is closed in front of the bracket keeps the value from what follows.
        by_cases hclosed : c ∈ body
        · obtain ⟨value, after, rfl, hvalue⟩ := List.eq_append_cons_of_mem hclosed
          simp only [List.cons_append, List.append_assoc]
          rw [quotedValue?_closed hvalue, quotedValue?_closed hvalue, closeBracket?_append, readOn,
            Option.map_map, Option.map_map]
          rfl
        · have hbody : c ∉ body ++ [']'] := by simp [hclosed, hquote]
          have halone : quotedValue? c (c :: (body ++ [']'] ++ [])) = none :=
            quotedValue?_unclosed hbody rfl
          have hbefore := quotedValue?_unclosed hbody (h body rfl hclosed)
          rw [List.append_nil] at halone
          rw [List.append_assoc, List.singleton_append] at hbefore
          rw [List.cons_append, List.cons_append, halone, hbefore]
          rfl
      · simp [quotedValue?, readOn, hc]

theorem value?_append {front rest : Text}
    (h : ∀ q body, front = q :: body → q = '"' ∨ q = '\'' → q ∉ body →
      closeBracket? (rest.dropWhile (· != q)).tail = none) :
    value? (front ++ ']' :: rest) = readOn rest (value? (front ++ [']'])) := by
  have hquoted : ∀ quote, quote = '"' ∨ quote = '\'' → quotedValue? quote (front ++ ']' :: rest) =
      readOn rest (quotedValue? quote (front ++ [']'])) := by
    intro quote hquote
    refine quotedValue?_append ?_ fun body hfront => h quote body hfront hquote
    rcases hquote with rfl | rfl <;> decide
  have hor : ∀ a b : Option (Text × Text),
      (readOn rest a).or (readOn rest b) = readOn rest (a.or b) := by
    intro a b
    cases a <;> rfl
  rw [value?, hquoted _ (.inl rfl), hquoted _ (.inr rfl), bareValue?_append, hor, hor, value?]

theorem attributeEnd?_append (name : Text) {front rest : Text}
    (h : ∀ value, front = '=' :: value → ∀ q body, value.dropWhile Text.isBlank = q :: body →
      q = '"' ∨ q = '\'' → q ∉ body → closeBracket? (rest.dropWhile (· != q)).tail = none) :
    attributeEnd? name (front ++ ']' :: rest) = readOn rest (attributeEnd? name (front ++ [']'])) := by
  cases front with
  | nil => rfl
  | cons c front =>
      by_cases hclose : c = ']'
      · subst hclose
        simp [attributeEnd?, readOn]
      · by_cases hequals : c = '='
        · subst hequals
          simp only [List.cons_append, attributeEnd?]
          rw [Text.dropWhile_append_cons (by decide), Text.dropWhile_append_cons (by decide),
            value?_append (h front rfl)]
          simp only [readOn, Option.map_map]
          rfl
        · simp [attributeEnd?, readOn, hclose, hequals]

/-- A test whose value starts with a quote and that does not close it has this quote open. -/
theorem openQuote?_eq_some {name value body : Text} {q : Char} (hname : '=' ∉ name)
    (hvalue : value.dropWhile Text.isBlank = q :: body) (hq : q = '"' ∨ q = '\'')
    (hbody : q ∉ body) : openQuote? (name ++ '=' :: value) = some q := by
  have hstop : ∀ c ∈ ('=' :: value).head?, (c != '=') = false := by simp
  rw [openQuote?, Text.dropWhile_append_stop (Text.bne_of_not_mem hname) hstop, List.tail_cons,
    hvalue]
  simp [hq, hbody]

theorem testEnd_append (front rest : Text) :
    testEnd (front ++ ']' :: rest) = testEnd front ++ ']' :: rest := by
  rw [testEnd, Text.dropWhile_append_cons (by decide), Text.dropWhile_append_cons (by decide),
    Text.dropWhile_append_cons (by decide), testEnd]

theorem attributePart?_append {front rest : Text}
    (h : runsOn ('[' :: (front ++ [']'])) rest = false) :
    attributePart? (front ++ ']' :: rest) = readOn rest (attributePart? (front ++ [']'])) := by
  have hname : ∀ rest, ((front ++ ']' :: rest).dropWhile Text.isBlank).takeWhile isAttributeChar =
      (front.dropWhile Text.isBlank).takeWhile isAttributeChar := by
    intro rest
    rw [Text.dropWhile_append_cons (by decide), Text.takeWhile_append _ (by simp [isAttributeChar])]
  rw [attributePart?_eq, attributePart?_eq, hname, hname, testEnd_append, testEnd_append]
  split
  · rfl
  · refine attributeEnd?_append _ ?_
    intro value hvalue q body hq hquote hbody
    -- The first equals sign of the test is the one in front of its value.
    have hopen : openQuote? ('[' :: (front ++ [']'])) = some q := by
      obtain ⟨before, hbefore, hequals⟩ := exists_append_testEnd front
      rw [hbefore, hvalue, List.append_assoc, List.cons_append, ← List.cons_append]
      have hend : (value ++ [']']).dropWhile Text.isBlank = q :: (body ++ [']']) := by
        rw [Text.dropWhile_append_cons (by decide), hq, List.cons_append]
      refine openQuote?_eq_some (by simpa using hequals) hend hquote ?_
      rcases hquote with rfl | rfl <;> simpa using hbody
    simpa [runsOn, hopen] using h

/-- A part is read alike in front of others, if it does not run on into them. -/
theorem part?_append {t rest : Text} {p : Part} (h : part? t = some (p, []))
    (hrest : ∀ c ∈ rest.head?, isNameChar c = false) (hquote : runsOn t rest = false) :
    part? (t ++ rest) = some (p, rest) := by
  have hnamed : ∀ (make : Text → Part) {name : Text}, name ≠ [] →
      (∀ c ∈ name, isNameChar c = true) → namedPart? make (name ++ rest) = some (make name, rest) := by
    intro make name hne hall
    simp [namedPart?, Text.takeWhile_append_stop hall hrest, Text.dropWhile_append_stop hall hrest,
      hne]
  rcases part?_cases h with ⟨name, rfl, rfl, hne, hall⟩ | ⟨name, rfl, rfl, hne, hall⟩ |
    ⟨front, _, _, rfl, _, htest⟩
  · exact hnamed .cls hne hall
  · exact hnamed .id hne hall
  · rw [List.cons_append, List.append_assoc, List.singleton_append, part?,
      attributePart?_append hquote, htest]
    rfl

end MarkupIds.Selector
