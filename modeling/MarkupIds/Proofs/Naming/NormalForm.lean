import MarkupIds.Proofs.Naming.Shape
import MarkupIds.Proofs.Text.Character

/-!
# Cleaning an identifier again

Cleaning drops the digits in front of a text before it trims separators, so a digit that stands
behind a separator comes to the front. Such an identifier is cut again the next time it is
cleaned; every other identifier stays as it is.
-/

namespace MarkupIds.Naming

/-- A text over the alphabet of identifiers, from behind the digits in front of it on. -/
def pastDigits (t : Text) : Text :=
  ((Text.lower t).map fun c => if isIdChar c then c else '-').dropWhile Text.isAsciiDigit

def leadsWithDigit (t : Text) : Bool :=
  t.head?.any Text.isAsciiDigit

theorem scrub_eq (t : Text) :
    scrub t = Text.trimWhile isSeparator (Text.squeeze '_' (Text.squeeze '-' (pastDigits t))) := rfl

/-! ## The first character -/

/-- The first character is the first one behind the leading digits that is no separator. -/
theorem head?_scrub (t : Text) :
    (scrub t).head? = ((pastDigits t).dropWhile isSeparator).head? := by
  rw [scrub_eq, Text.trimWhile, Text.head?_dropTailWhile (Text.head?_dropWhile _),
    Text.head?_dropWhile_squeeze, Text.head?_dropWhile_squeeze]

theorem head?_fit {limit : Limit} (hlimit : ∀ m, limit = some m → 0 ≤ m) {t : Text}
    (h : ∀ c ∈ t.head?, isSeparator c = false) : (fit limit t).head? = t.head? := by
  unfold fit
  split
  · rename_i m hbound
    obtain ⟨rfl, hm⟩ := Option.filter_eq_some_iff.mp hbound
    have hpos : 0 < m := lt_of_le_of_ne (hlimit m rfl) (Ne.symm (by simpa using hm))
    split
    · have hhead : (Text.takeSigned m t).head? = t.head? := by
        rw [Text.takeSigned, if_pos hpos.le, List.head?_take, if_neg (by omega)]
      rw [Text.head?_dropTailWhile (by rwa [hhead]), hhead]
    · rfl
  · rfl

theorem leadsWithDigit_clean {limit : Limit} (hlimit : ∀ m, limit = some m → 0 ≤ m) (t : Text) :
    leadsWithDigit (clean limit t) = leadsWithDigit ((pastDigits t).dropWhile isSeparator) := by
  have hfit := head?_fit hlimit (scrub_tidy t).first
  rw [leadsWithDigit, leadsWithDigit, ← head?_scrub, ← hfit, clean]
  cases fit limit (scrub t) with
  | nil => rfl
  | cons c cs => rfl

/-! ## Cleaning again -/

theorem isLowered_of_isIdChar {c : Char} (h : isIdChar c = true) : Text.isLowered c = true := by
  simp only [isIdChar, Bool.or_eq_true, Text.isAsciiLower_iff, Text.isAsciiDigit_iff,
    beq_iff_eq] at h
  simp only [Text.isLowered, Bool.and_eq_true, Bool.not_eq_true', Bool.and_eq_false_iff,
    decide_eq_true_eq, decide_eq_false_iff_not, Text.toNat_le_toNat_iff]
  have hA : 'A'.toNat = 65 := rfl
  have hZ : 'Z'.toNat = 90 := rfl
  rcases h with ((h | h) | rfl) | rfl
  · omega
  · omega
  · decide
  · decide

theorem pastDigits_of_isIdText {t : Text} (h : IsIdText t) :
    pastDigits t = t.dropWhile Text.isAsciiDigit := by
  have hlower : Text.lower t = t :=
    Text.lower_eq_self fun c hc => isLowered_of_isIdChar (h c hc)
  have hmarked : (t.map fun c => if isIdChar c then c else '-') = t := by
    conv_rhs => rw [← List.map_id t]
    exact List.map_congr_left fun c hc => if_pos (h c hc)
  rw [pastDigits, hlower, hmarked]

theorem scrub_of_tidy {t : Text} (h : Tidy t) :
    scrub t = Text.trimWhile isSeparator (t.dropWhile Text.isAsciiDigit) := by
  have hsingle := h.single.suffix (List.dropWhile_suffix Text.isAsciiDigit)
  have hhyphens : Text.squeeze '-' (t.dropWhile Text.isAsciiDigit) =
      t.dropWhile Text.isAsciiDigit :=
    Text.squeeze_eq_self (hsingle.imp fun a b hab ha => hab (isSeparator_iff.mpr (.inl ha)))
  have hunderscores : Text.squeeze '_' (t.dropWhile Text.isAsciiDigit) =
      t.dropWhile Text.isAsciiDigit :=
    Text.squeeze_eq_self (hsingle.imp fun a b hab ha => hab (isSeparator_iff.mpr (.inr ha)))
  rw [scrub_eq, pastDigits_of_isIdText h.alphabet, hhyphens, hunderscores]

theorem scrub_eq_self {t : Text} (h : Tidy t) (hdigit : leadsWithDigit t = false) :
    scrub t = t := by
  have hfront : t.dropWhile Text.isAsciiDigit = t := by
    cases t with
    | nil => rfl
    | cons c t => exact List.dropWhile_cons_of_neg (by simpa [leadsWithDigit] using hdigit)
  rw [scrub_of_tidy h, hfront, Text.trimWhile_eq_self h.first h.last]

/-- A digit in front is dropped. -/
theorem length_scrub_lt {t : Text} (h : Tidy t) (hdigit : leadsWithDigit t = true) :
    (scrub t).length < t.length := by
  have htrim := (Text.trimWhile_sublist isSeparator (t.dropWhile Text.isAsciiDigit)).length_le
  cases t with
  | nil => exact absurd hdigit (by decide)
  | cons c t =>
      have hc : Text.isAsciiDigit c = true := hdigit
      rw [List.dropWhile_cons_of_pos hc] at htrim
      have hdrop := (List.dropWhile_sublist (l := t) Text.isAsciiDigit).length_le
      rw [scrub_of_tidy h, List.dropWhile_cons_of_pos hc, List.length_cons]
      omega

theorem fit_eq_self {limit : Limit} {t : Text} (h : ∀ m ∈ limit.bound?, (t.length : ℤ) ≤ m) :
    fit limit t = t := by
  unfold fit
  split
  · rename_i m hbound
    exact if_neg (not_lt.mpr (h m hbound))
  · rfl

theorem clean_eq_self {limit : Limit} {t : Text} (h : Tidy t) (hne : t ≠ [])
    (hlength : ∀ m ∈ limit.bound?, (t.length : ℤ) ≤ m) (hdigit : leadsWithDigit t = false) :
    clean limit t = t := by
  rw [clean, scrub_eq_self h hdigit, fit_eq_self hlength]
  cases t with
  | nil => exact absurd rfl hne
  | cons c t => rfl

theorem clean_ne_self {limit : Limit} {t : Text} (h : Tidy t) (hdigit : leadsWithDigit t = true) :
    clean limit t ≠ t := by
  intro hsame
  have hshorter := length_scrub_lt h hdigit
  have hfit := (fit_sublist limit (scrub t)).length_le
  rw [clean] at hsame
  split at hsame
  · rw [← hsame] at hdigit
    exact absurd hdigit (by decide)
  · rw [hsame] at hfit
    omega

/-- Cleaned under no bound or one of seven and more, a text gives an identifier with a digit in
front exactly if separators come before a digit behind the text's leading digits. Just such an
identifier changes when it is cleaned again. -/
theorem clean_clean_iff (limit : Limit) (hlimit : ∀ m, limit = some m → m = 0 ∨ 7 ≤ m)
    (t : Text) :
    let id := clean limit t
    (leadsWithDigit id = true ↔
      leadsWithDigit ((pastDigits t).dropWhile isSeparator) = true) ∧
    (clean limit id = id ↔ leadsWithDigit id = false) := by
  intro id
  have hnonneg : ∀ m, limit = some m → 0 ≤ m := by
    intro m hm
    rcases hlimit m hm with rfl | hlong <;> omega
  have hlength : ∀ m ∈ limit.bound?, (id.length : ℤ) ≤ m := by
    intro m hm
    obtain ⟨rfl, hne⟩ := Option.filter_eq_some_iff.mp hm
    have hlong : 7 ≤ m := (hlimit m rfl).resolve_left (by simpa using hne)
    have hbound := length_clean_le (show 0 < m by omega) t
    rwa [max_eq_left hlong] at hbound
  have htidy : Tidy id := clean_tidy limit t
  refine ⟨by rw [leadsWithDigit_clean hnonneg], ?_, ?_⟩
  · intro hsame
    by_contra hdigit
    exact clean_ne_self htidy (by simpa using hdigit) hsame
  · exact clean_eq_self htidy (clean_ne_nil limit t) hlength

/-- The digits in front are dropped, the bound cuts the second word, and the identifier stays as it
is from then on. -/
theorem clean_clean_iff_greeting :
    let id := "hello-wor".toList
    clean (some 9) "123 Hello World!!".toList = id ∧ clean (some 9) id = id := by
  intro id
  have hclean : clean (some 9) "123 Hello World!!".toList = id := by decide
  have hlimit : ∀ m, (some 9 : Limit) = some m → m = 0 ∨ 7 ≤ m := by
    intro m hm
    obtain rfl : 9 = m := Option.some.inj hm
    decide
  have hagain := (clean_clean_iff (some 9) hlimit "123 Hello World!!".toList).2
  rw [hclean] at hagain
  exact ⟨hclean, hagain.mpr (by decide)⟩

/-- A hyphen shields the digit behind it, once. -/
theorem clean_digit_behind_hyphen :
    leadsWithDigit (clean none "-1a".toList) = true ∧
      clean none (clean none "-1a".toList) ≠ clean none "-1a".toList := by
  decide

end MarkupIds.Naming
