import MarkupIds.Naming.Strategy
import MarkupIds.Proofs.Lists
import MarkupIds.Proofs.Naming.NormalForm

/-!
# The words of an identifier

Entries are joined in kebab, snake and camel case. The three results differ in separators and
capitals only. Snake case puts underscores between the words that hyphens divide.
-/

namespace MarkupIds

/-! ## Pieces between separators -/

namespace Text

theorem flatten_split (sep : Char) (t : Text) : (split sep t).flatten = t.filter (· != sep) := by
  induction t with
  | nil => rfl
  | cons c t ih =>
      rw [split, splitWhere]
      by_cases hc : c = sep
      · rw [if_pos (by simp [hc]), List.filter_cons_of_neg (by simp [hc]), ← ih]
        rfl
      · rw [if_neg (by simpa using hc), List.filter_cons_of_pos (by simpa using hc), ← ih, split]
        cases splitWhere (· == sep) t <;> rfl

theorem filter_join {p : Char → Bool} {sep : Text} (hsep : ∀ c ∈ sep, p c = false)
    (pieces : List Text) : (join sep pieces).filter p = pieces.flatten.filter p := by
  have hnone : sep.filter p = [] := by simpa [List.filter_eq_nil_iff] using hsep
  cases pieces with
  | nil => rfl
  | cons piece pieces =>
      rw [join_cons, List.flatten_cons, List.filter_append, List.filter_append, List.filter_flatMap,
        List.filter_flatten, ← List.flatMap_def]
      simp [hnone]

theorem map_join (f : Char → Char) (sep : Text) (pieces : List Text) :
    (join sep pieces).map f = join (sep.map f) (pieces.map (List.map f)) := by
  cases pieces with
  | nil => rfl
  | cons piece pieces => simp [join_cons, List.map_flatMap, List.flatMap_map]

theorem join_append (sep : Text) {xs ys : List Text} (hxs : xs ≠ []) (hys : ys ≠ []) :
    join sep (xs ++ ys) = join sep xs ++ sep ++ join sep ys := by
  obtain ⟨x, xs, rfl⟩ := List.exists_cons_of_ne_nil hxs
  obtain ⟨y, ys, rfl⟩ := List.exists_cons_of_ne_nil hys
  simp [join_cons]

theorem split_ne_nil (sep : Char) (t : Text) : split sep t ≠ [] := by
  rw [split_eq_splitOn]
  exact List.splitOnP_ne_nil _ t

/-- Pieces may be cut at the separator that they are joined with. -/
theorem join_flatMap_split (sep : Char) (pieces : List Text) :
    join [sep] (pieces.flatMap (split sep)) = join [sep] pieces := by
  induction pieces with
  | nil => rfl
  | cons piece pieces ih =>
      cases pieces with
      | nil =>
          rw [List.flatMap_cons, List.flatMap_nil, List.append_nil, join_split]
          exact List.intercalate_singleton.symm
      | cons next pieces =>
          have hmore : (next :: pieces).flatMap (split sep) ≠ [] := by simp [split_ne_nil]
          rw [List.flatMap_cons, join_append [sep] (split_ne_nil sep piece) hmore, ih, join_split]
          exact List.intercalate_cons_cons.symm

end Text

namespace Naming

def isKebabChar (c : Char) : Bool :=
  Text.isAsciiLower c || Text.isAsciiDigit c || c == '-'

/-- A text of small letters, digits and hyphens. -/
def IsKebabText (t : Text) : Prop :=
  ∀ c ∈ t, isKebabChar c = true

instance (t : Text) : Decidable (IsKebabText t) :=
  decidable_of_iff (t.all isKebabChar = true) List.all_eq_true

/-- What is left of a text without hyphens and underscores, in lower case. -/
def letters (t : Text) : Text :=
  Text.lower (t.filter (!isSeparator ·))

theorem letters_join {sep : Text} (hsep : ∀ c ∈ sep, isSeparator c = true) (pieces : List Text) :
    letters (Text.join sep pieces) = letters pieces.flatten := by
  rw [letters, Text.filter_join, letters]
  intro c hc
  rw [hsep c hc]
  rfl

/-! ## Camel case -/

/-- A character of ASCII stands for another one that is its lower case. -/
structure Recased (u c : Char) : Prop where
  ascii : u.toNat < 128
  lower : Text.lowerChar u = [c]
  separator : isSeparator u = isSeparator c

theorem Recased.refl {c : Char} (h : Text.isLowered c = true) : Recased c c := by
  refine ⟨?_, Text.lowerChar_eq_self h, rfl⟩
  simp only [Text.isLowered, Bool.and_eq_true, decide_eq_true_eq] at h
  exact h.1

theorem recased_refl {t : Text} (h : ∀ c ∈ t, Text.isLowered c = true) :
    List.Forall₂ Recased t t :=
  List.forall₂_same.mpr fun c hc => .refl (h c hc)

theorem isSeparator_eq_false {c : Char} (h : 65 ≤ c.toNat ∧ c.toNat ≤ 90 ∨ 97 ≤ c.toNat) :
    isSeparator c = false := by
  simp only [isSeparator, Bool.or_eq_false_iff, beq_eq_false_iff_ne]
  constructor
  all_goals
    rintro rfl
    revert h
    decide

theorem recased_upperChar {c : Char} (h : Text.isLowered c = true) :
    List.Forall₂ Recased (Text.upperChar c) [c] := by
  cases hletter : ('a' ≤ c && c ≤ 'z') with
  | false =>
      have hsame := Recased.refl h
      rw [Text.upperChar_eq_self hsame.ascii hletter]
      exact .cons hsame .nil
  | true =>
      obtain ⟨u, hcapital, hupper, hlower⟩ := Text.exists_capital hletter
      simp only [Bool.and_eq_true, decide_eq_true_eq, Text.toNat_le_toNat_iff] at hcapital hletter
      change 65 ≤ u.toNat ∧ u.toNat ≤ 90 at hcapital
      change 97 ≤ c.toNat ∧ c.toNat ≤ 122 at hletter
      rw [hupper]
      refine .cons ⟨by omega, hlower, ?_⟩ .nil
      rw [isSeparator_eq_false (.inl hcapital), isSeparator_eq_false (.inr hletter.1)]

theorem recased_capitalize {w : Text} (h : ∀ c ∈ w, Text.isLowered c = true) :
    List.Forall₂ Recased (Strategy.capitalize w) w := by
  cases w with
  | nil => exact .nil
  | cons c cs =>
      obtain ⟨hc, hcs⟩ := List.forall_mem_cons.mp h
      rw [Strategy.capitalize, Text.lower_eq_self hcs]
      exact List.rel_append (recased_upperChar hc) (recased_refl hcs)

theorem recased_flatMap_capitalize {ws : List Text}
    (h : ∀ w ∈ ws, ∀ c ∈ w, Text.isLowered c = true) :
    List.Forall₂ Recased (ws.flatMap Strategy.capitalize) ws.flatten := by
  induction ws with
  | nil => exact .nil
  | cons w ws ih =>
      obtain ⟨hw, hws⟩ := List.forall_mem_cons.mp h
      exact List.rel_append (recased_capitalize hw) (ih hws)

theorem recased_joinCamel {ws : List Text} (h : ∀ c ∈ ws.flatten, Text.isLowered c = true) :
    List.Forall₂ Recased (Strategy.joinCamel ws) ws.flatten := by
  have hwords : ∀ w ∈ ws, ∀ c ∈ w, Text.isLowered c = true :=
    fun w hw c hc => h c (List.mem_flatten.mpr ⟨w, hw, hc⟩)
  cases ws with
  | nil => exact .nil
  | cons w ws =>
      obtain ⟨hw, hws⟩ := List.forall_mem_cons.mp hwords
      rw [Strategy.joinCamel, Text.lower_eq_self hw]
      exact List.rel_append (recased_refl hw) (recased_flatMap_capitalize hws)

theorem toNat_lt_of_recased {u t : Text} (h : List.Forall₂ Recased u t) :
    ∀ c ∈ u, c.toNat < 128 := by
  induction h with
  | nil => simp
  | cons hchar _ ih => exact List.forall_mem_cons.mpr ⟨hchar.ascii, ih⟩

theorem flatMap_lowerChar_of_recased {u t : Text} (h : List.Forall₂ Recased u t) :
    (u.filter (!isSeparator ·)).flatMap Text.lowerChar = t.filter (!isSeparator ·) := by
  induction h with
  | nil => rfl
  | cons hchar _ ih =>
      rw [List.filter_cons, List.filter_cons, hchar.separator]
      split
      · rw [List.flatMap_cons, hchar.lower, ih]
        rfl
      · exact ih

/-- Case does not change what is left of a text. -/
theorem letters_of_recased {u t : Text} (h : List.Forall₂ Recased u t) :
    letters u = t.filter (!isSeparator ·) := by
  have hsigma : ∀ c ∈ u.filter (!isSeparator ·), c.toNat ≠ 0x3A3 := by
    intro c hc
    have hascii := toNat_lt_of_recased h c (List.mem_of_mem_filter hc)
    omega
  rw [letters, Text.lower_eq_flatMap hsigma, flatMap_lowerChar_of_recased h]

namespace Strategy

/-! ## Words between hyphens -/

/-- The entries that are joined: none is empty, and each stands once. -/
def kept (entries : List Text) : List Text :=
  Text.dedup (entries.filter (!·.isEmpty))

/-- The words between the hyphens of entries, without the empty ones. -/
def hyphenWords (entries : List Text) : List Text :=
  (entries.flatMap (Text.split '-')).filter (!·.isEmpty)

theorem wordsOf_eq (entries : List Text) :
    wordsOf entries = if hyphenWords entries = [] then entries else hyphenWords entries := by
  unfold wordsOf
  rw [← hyphenWords]
  cases hyphenWords entries <;> rfl

theorem flatten_hyphenWords (entries : List Text) :
    (hyphenWords entries).flatten = entries.flatten.filter (· != '-') := by
  rw [hyphenWords, List.flatten_filter_not_isEmpty, List.filter_flatten, List.flatMap_def]
  induction entries with
  | nil => rfl
  | cons t entries ih =>
      rw [List.map_cons, List.map_cons, List.flatten_cons, List.flatten_append, ih,
        Text.flatten_split, List.flatten_cons]

/-- An entry that is more than hyphens has a word. -/
theorem hyphenWords_ne_nil {entries : List Text} {t : Text} {c : Char} (ht : t ∈ entries)
    (hc : c ∈ t) (hne : c ≠ '-') : hyphenWords entries ≠ [] := by
  intro hnone
  have hmem : c ∈ (hyphenWords entries).flatten := by
    rw [flatten_hyphenWords, List.mem_filter]
    exact ⟨List.mem_flatten.mpr ⟨t, ht, hc⟩, by simpa using hne⟩
  rw [hnone] at hmem
  exact nomatch hmem

theorem hyphenWords_eq_flatMap {entries : List Text} (h : ∀ t ∈ entries, [] ∉ Text.split '-' t) :
    hyphenWords entries = entries.flatMap (Text.split '-') := by
  refine List.filter_eq_self.mpr ?_
  intro w hw
  obtain ⟨t, ht, hsplit⟩ := List.mem_flatMap.mp hw
  cases w with
  | nil => exact absurd hsplit (h t ht)
  | cons c cs => rfl

/-- Empty entries have no words. -/
theorem hyphenWords_kept (entries : List Text) :
    hyphenWords (kept entries) = hyphenWords (Text.dedup entries) := by
  rw [kept, Text.dedup, Text.dedup, eraseDups_filter, hyphenWords, hyphenWords, List.filter_flatMap,
    List.filter_flatMap]
  induction entries.eraseDups with
  | nil => rfl
  | cons t entries ih =>
      cases t with
      | nil => simpa [Text.split, Text.splitWhere] using ih
      | cons c cs => rw [List.filter_cons_of_pos rfl, List.flatMap_cons, List.flatMap_cons, ih]

/-- The words of entries have the letters of the entries. -/
theorem letters_wordsOf (entries : List Text) :
    letters (wordsOf entries).flatten = letters entries.flatten := by
  rw [wordsOf_eq]
  split
  · rfl
  · rw [flatten_hyphenWords, letters, letters, List.filter_filter]
    refine congrArg Text.lower (List.filter_congr ?_)
    intro c _
    cases hc : c == '-' <;> simp [isSeparator, hc, bne]

theorem mem_of_mem_wordsOf {entries : List Text} {c : Char} (h : c ∈ (wordsOf entries).flatten) :
    c ∈ entries.flatten := by
  rw [wordsOf_eq] at h
  split at h
  · exact h
  · rw [flatten_hyphenWords] at h
    exact List.mem_of_mem_filter h

/-! ## Entries that are joined -/

variable {entries : List Text}

theorem combine_of_kept_eq_nil (h : kept entries = []) (s : Strategy) :
    s.combine entries = .ok fallback := by
  unfold combine
  rw [← kept, h]

theorem combine_of_kept_ne_nil (h : kept entries ≠ []) (s : Strategy) :
    s.combine entries =
      match s with
      | .kebab => .ok (Text.join ['-'] (kept entries))
      | .camel => .ok (joinCamel (wordsOf (kept entries)))
      | .snake => .ok (Text.join ['_'] (wordsOf (kept entries)))
      | .custom transform => transform (Text.join ['-'] (kept entries)) := by
  unfold combine
  rw [← kept]
  obtain ⟨t, rest, hkept⟩ := List.exists_cons_of_ne_nil h
  cases s <;> rw [hkept]

theorem mem_kept_iff {t : Text} : t ∈ kept entries ↔ t ∈ entries ∧ t ≠ [] := by
  simp [kept, Text.dedup]

theorem isLowered_of_mem_kept (h : ∀ t ∈ entries, IsKebabText t) :
    ∀ c ∈ (kept entries).flatten, Text.isLowered c = true := by
  intro c hc
  obtain ⟨t, ht, hct⟩ := List.mem_flatten.mp hc
  have hkebab := h t (mem_kept_iff.mp ht).1 c hct
  apply isLowered_of_isIdChar
  simp only [isKebabChar, isIdChar, Bool.or_eq_true] at hkebab ⊢
  tauto

theorem letters_joinCamel_kept (h : ∀ t ∈ entries, IsKebabText t) :
    letters (joinCamel (wordsOf (kept entries))) = letters (kept entries).flatten := by
  have hwords : ∀ c ∈ (wordsOf (kept entries)).flatten, Text.isLowered c = true :=
    fun c hc => isLowered_of_mem_kept h c (mem_of_mem_wordsOf hc)
  rw [letters_of_recased (recased_joinCamel hwords), ← letters_of_recased (recased_refl hwords),
    letters_wordsOf]

/-- Without empty words snake case is kebab case with other separators. -/
theorem join_wordsOf {entries : List Text} (h : ∀ t ∈ entries, [] ∉ Text.split '-' t) :
    Text.join ['_'] (wordsOf entries) =
      (Text.join ['-'] entries).map fun c => if c = '-' then '_' else c := by
  have hwords : wordsOf entries = entries.flatMap (Text.split '-') := by
    rw [wordsOf_eq, hyphenWords_eq_flatMap h]
    cases entries with
    | nil => rfl
    | cons t entries => rw [if_neg (by simp [Text.split_ne_nil])]
  have hplain : ∀ w ∈ entries.flatMap (Text.split '-'),
      w.map (fun c => if c = '-' then '_' else c) = w := by
    intro w hw
    obtain ⟨t, -, hsplit⟩ := List.mem_flatMap.mp hw
    have hsame : ∀ c ∈ w, (if c = '-' then '_' else c) = c := by
      intro c hc
      refine if_neg ?_
      rintro rfl
      exact Text.not_mem_of_mem_split hsplit hc
    rw [List.map_congr_left hsame, List.map_id']
  rw [hwords, ← Text.join_flatMap_split '-' entries, Text.map_join, List.map_congr_left hplain,
    List.map_id']
  rfl

/-- Entries of small letters, digits and hyphens are joined to the same letters in every style. If
one of them is more than hyphens, snake case has the words between hyphens with single underscores
between them, and it is kebab case with underscores for hyphens if no word is empty. -/
theorem combine_carries_words (entries : List Text) (h : ∀ t ∈ entries, IsKebabText t) :
    ∃ kebab snake camel : Text,
      Strategy.kebab.combine entries = .ok kebab ∧
      Strategy.snake.combine entries = .ok snake ∧
      Strategy.camel.combine entries = .ok camel ∧
      letters kebab = letters snake ∧ letters camel = letters snake ∧
      ((∃ t ∈ entries, ∃ c ∈ t, c ≠ '-') →
        snake = Text.join ['_'] (hyphenWords (Text.dedup entries))) ∧
      ((∀ t ∈ entries, [] ∉ Text.split '-' t) →
        snake = kebab.map fun c => if c = '-' then '_' else c) := by
  by_cases hkept : kept entries = []
  · refine ⟨fallback, fallback, fallback, combine_of_kept_eq_nil hkept _,
      combine_of_kept_eq_nil hkept _, combine_of_kept_eq_nil hkept _, rfl, rfl, ?_, fun _ => rfl⟩
    rintro ⟨t, ht, c, hc, -⟩
    have hmem : t ∈ kept entries := mem_kept_iff.mpr ⟨ht, List.ne_nil_of_mem hc⟩
    rw [hkept] at hmem
    exact nomatch hmem
  · have hsnake : letters (Text.join ['_'] (wordsOf (kept entries))) =
        letters (kept entries).flatten := by
      rw [letters_join (by simp [isSeparator]), letters_wordsOf]
    refine ⟨_, _, _, combine_of_kept_ne_nil hkept _, combine_of_kept_ne_nil hkept _,
      combine_of_kept_ne_nil hkept _, ?_, ?_, ?_, ?_⟩
    · rw [letters_join (by simp [isSeparator]), hsnake]
    · rw [letters_joinCamel_kept h, hsnake]
    · rintro ⟨t, ht, c, hc, hne⟩
      have hmem : t ∈ kept entries := mem_kept_iff.mpr ⟨ht, List.ne_nil_of_mem hc⟩
      rw [wordsOf_eq, if_neg (hyphenWords_ne_nil hmem hc hne), hyphenWords_kept]
    · intro hwords
      exact join_wordsOf fun t ht => hwords t (mem_kept_iff.mp ht).1

/-- The repeated entry is dropped, the word that stands in two entries is not. -/
theorem combine_carries_words_login :
    let entries := ["login-form".toList, "form".toList, "2fa".toList, "form".toList]
    ∃ kebab snake camel : Text,
      Strategy.kebab.combine entries = .ok kebab ∧
      Strategy.snake.combine entries = .ok snake ∧
      Strategy.camel.combine entries = .ok camel ∧
      letters kebab = letters snake ∧ letters camel = letters snake ∧
      snake = "login_form_form_2fa".toList ∧
      snake = kebab.map fun c => if c = '-' then '_' else c := by
  intro entries
  obtain ⟨kebab, snake, camel, hkebab, hsnake, hcamel, hfirst, hsecond, hwords, hmap⟩ :=
    combine_carries_words entries (by decide)
  have hjoined : snake = "login_form_form_2fa".toList :=
    (hwords ⟨"form".toList, by decide, 'f', by decide, by decide⟩).trans (by decide)
  exact ⟨kebab, snake, camel, hkebab, hsnake, hcamel, hfirst, hsecond, hjoined, hmap (by decide)⟩

end Strategy

end Naming

end MarkupIds
