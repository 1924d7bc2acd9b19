import MarkupIds.Proofs.Naming.Alphabet
import MarkupIds.Proofs.Text.Trimming
import Mathlib.Data.List.TakeWhile

/-!
# The shape of identifiers

Whatever an element is named after, its identifier begins and ends with a letter or a digit, has
no separator twice in a row, and keeps to its bound. Cleaning gives a text this shape, and cutting
a text or adding a numeral to it keeps the shape.
-/

namespace MarkupIds.Naming

/-- A text in the shape of an identifier, or empty: letters, digits, hyphens and underscores, with
a letter or digit at both ends and no separator twice in a row. -/
structure Tidy (t : Text) : Prop where
  alphabet : IsIdText t
  first : ∀ c ∈ t.head?, isSeparator c = false
  last : ∀ c ∈ t.getLast?, isSeparator c = false
  single : t.IsChain fun a b => isSeparator a = true → a ≠ b

/-! ## Keeping the shape -/

theorem isSeparator_iff {c : Char} : isSeparator c = true ↔ c = '-' ∨ c = '_' := by
  simp only [isSeparator, Bool.or_eq_true, beq_iff_eq]

theorem isSeparator_eq_false_of_isBase36Digit {c : Char} (h : Text.isBase36Digit c = true) :
    isSeparator c = false := by
  by_contra hsep
  rcases isSeparator_iff.mp (by simpa using hsep) with rfl | rfl <;> exact absurd h (by decide)

/-- Cut anywhere and trimmed at the cut, a tidy text is tidy. -/
theorem Tidy.cut {s t : Text} (ht : Tidy t) (h : s <+: t) :
    Tidy (Text.dropTailWhile isSeparator s) := by
  have hpart := (Text.dropTailWhile_isPrefix isSeparator s).trans h
  exact ⟨ht.alphabet.sublist hpart.sublist,
    fun c hc => ht.first c (Text.mem_head?_of_isPrefix hpart hc),
    Text.getLast?_dropTailWhile s, ht.single.prefix hpart⟩

theorem tidy_of_digits {t : Text} (h : ∀ c ∈ t, Text.isBase36Digit c = true) : Tidy t := by
  have hink : ∀ c ∈ t, isSeparator c = false :=
    fun c hc => isSeparator_eq_false_of_isBase36Digit (h c hc)
  refine ⟨fun c hc => isIdChar_of_isBase36Digit (h c hc),
    fun c hc => hink c (List.mem_of_mem_head? hc), fun c hc => hink c (List.mem_of_getLast? hc), ?_⟩
  induction t with
  | nil => exact .nil
  | cons c t ih =>
      refine List.isChain_cons.mpr ⟨?_, ih (fun d hd => h d (by simp [hd]))
        (fun d hd => hink d (by simp [hd]))⟩
      intro d _ hsep
      rw [hink c (by simp)] at hsep
      exact Bool.noConfusion hsep

/-- A numeral can be written behind a tidy text, with a hyphen between them. -/
theorem Tidy.hyphen {base digits : Text} (hbase : Tidy base) (hne : base ≠ [])
    (hdigits : ∀ c ∈ digits, Text.isBase36Digit c = true) (hsome : digits ≠ []) :
    Tidy (base ++ '-' :: digits) := by
  have htail := tidy_of_digits hdigits
  refine ⟨?_, ?_, ?_, ?_⟩
  · exact isIdText_append.mpr ⟨hbase.alphabet, isIdText_cons.mpr ⟨by decide, htail.alphabet⟩⟩
  · intro c hc
    rw [List.head?_append_of_ne_nil _ hne] at hc
    exact hbase.first c hc
  · intro c hc
    rw [List.getLast?_append_of_ne_nil _ (by simp), List.getLast?_cons_of_ne_nil hsome] at hc
    exact htail.last c hc
  · refine List.isChain_append.mpr ⟨hbase.single, List.isChain_cons.mpr ⟨?_, htail.single⟩, ?_⟩
    · rintro c hc _ rfl
      exact absurd (htail.first _ hc) (by decide)
    · intro c hc d _ hsep
      rw [hbase.last c hc] at hsep
      exact Bool.noConfusion hsep

/-! ## Proposals -/

theorem scrub_tidy (t : Text) : Tidy (scrub t) := by
  refine ⟨scrub_isIdText t, Text.head?_trimWhile _, Text.getLast?_dropTailWhile _, ?_⟩
  let numbered := ((Text.lower t).map fun c => if isIdChar c then c else '-').dropWhile
    Text.isAsciiDigit
  have hhyphens : (Text.squeeze '_' (Text.squeeze '-' numbered)).IsChain
      fun a b => a = '-' → a ≠ b :=
    Text.isChain_squeeze (Text.isChain_squeeze_self '-' numbered) '_'
  have hunderscores : (Text.squeeze '_' (Text.squeeze '-' numbered)).IsChain
      fun a b => a = '_' → a ≠ b :=
    Text.isChain_squeeze_self '_' _
  refine List.IsChain.infix (l := Text.squeeze '_' (Text.squeeze '-' numbered)) ?_ ?_
  · rw [List.isChain_iff_forall_rel_of_append_cons_cons] at hhyphens hunderscores ⊢
    intro a b front back hsplit hsep
    rcases isSeparator_iff.mp hsep with rfl | rfl
    · exact hhyphens hsplit rfl
    · exact hunderscores hsplit rfl
  · exact (Text.dropTailWhile_isPrefix _ _).isInfix.trans (List.dropWhile_suffix _).isInfix

theorem fit_tidy {t : Text} (h : Tidy t) (limit : Limit) : Tidy (fit limit t) := by
  unfold fit
  split
  · split
    · exact h.cut (Text.takeSigned_isPrefix _ t)
    · exact h
  · exact h

theorem clean_tidy (limit : Limit) (t : Text) : Tidy (clean limit t) := by
  unfold clean
  split
  · exact tidy_of_digits (List.all_eq_true.mp (by decide))
  · exact fit_tidy (scrub_tidy t) limit

/-! ## Rungs -/

theorem numberedBase_tidy {candidate : Text} (h : Tidy candidate) (n : ℕ) :
    Tidy (numberedBase candidate n) := by
  unfold numberedBase
  split
  · exact h.cut (List.take_prefix _ _)
  · exact h

theorem numberedBase_ne_nil {candidate : Text} (h : Tidy candidate) (hne : candidate ≠ [])
    (n : ℕ) : numberedBase candidate n ≠ [] := by
  unfold numberedBase
  split
  · cases candidate with
    | nil => exact absurd rfl hne
    | cons c cs => exact Text.dropTailWhile_ne_nil (h.first c rfl) (cs.take 24)
  · exact hne

theorem withSuffix_tidy {limit : Limit} {base suffix : Text} (hbase : Tidy base) (hne : base ≠ [])
    (hdigits : ∀ c ∈ suffix, Text.isBase36Digit c = true) (hsome : suffix ≠ []) :
    Tidy (withSuffix limit base suffix) := by
  have hdrop : ∀ n, Tidy (suffix.drop n) :=
    fun n => tidy_of_digits fun c hc => hdigits c (List.mem_of_mem_drop hc)
  unfold withSuffix
  dsimp only
  split
  · exact hbase.hyphen hne hdigits hsome
  · split
    · exact hbase.hyphen hne hdigits hsome
    · split
      · split <;> exact hdrop _
      · rename_i htrimmed
        exact (hbase.cut (List.take_prefix _ _)).hyphen htrimmed hdigits hsome

theorem ladder_tidy {candidate : Text} (h : Tidy candidate) (hne : candidate ≠ []) (clock : ℕ)
    (limit : Limit) (n : ℕ) : Tidy (ladder clock limit candidate n) := by
  have hdigits : ∀ base m, 2 ≤ base → base ≤ 36 →
      ∀ c ∈ Text.ofNat base m, Text.isBase36Digit c = true :=
    fun base m hlo hhi => Text.isBase36Digit_of_mem_ofNat hlo hhi
  cases n with
  | zero => exact h
  | succ n =>
      rw [ladder]
      split
      · exact withSuffix_tidy (numberedBase_tidy h _) (numberedBase_ne_nil h hne _)
          (hdigits 10 _ (by omega) (by omega)) (Text.ofNat_ne_nil (by omega) _)
      · exact withSuffix_tidy h hne (hdigits 36 _ (by omega) (by omega))
          (Text.ofNat_ne_nil (by omega) _)

/-! ## Lengths -/

theorem length_fit_le {m : ℤ} (hm : 0 < m) (t : Text) : ((fit (some m) t).length : ℤ) ≤ m := by
  rw [fit, bound?_some (by omega)]
  dsimp only
  split
  · have htail := (Text.dropTailWhile_isPrefix isSeparator (Text.takeSigned m t)).length_le
    have htake : (Text.takeSigned m t).length ≤ m.toNat := by
      rw [Text.takeSigned, if_pos hm.le]
      exact List.length_take_le _ _
    omega
  · omega

theorem length_clean_le {m : ℤ} (hm : 0 < m) (t : Text) :
    ((clean (some m) t).length : ℤ) ≤ max m 7 := by
  have hfit := length_fit_le hm (scrub t)
  unfold clean
  split
  · exact le_max_right _ _
  · exact hfit.trans (le_max_left _ _)

/-- Under a positive bound the base gives way to the suffix, and at last the suffix is cut. -/
theorem length_withSuffix_le {m : ℤ} (hm : 0 < m) (base suffix : Text) :
    ((withSuffix (some m) base suffix).length : ℤ) ≤ m := by
  rw [withSuffix, bound?_some (by omega)]
  dsimp only
  split
  · assumption
  · split
    · rw [List.length_drop]
      omega
    · rename_i trimmed htrimmed
      have htake := (Text.dropTailWhile_isPrefix isSeparator
        (base.take (m - suffix.length - 1).toNat)).length_le
      have hpos := List.length_pos_iff.mpr htrimmed
      rw [List.length_take] at htake
      simp only [List.length_append, List.length_cons]
      omega

theorem length_ladder_le {m : ℤ} (hm : 0 < m) {candidate : Text}
    (h : (candidate.length : ℤ) ≤ max m 7) (clock n : ℕ) :
    ((ladder clock (some m) candidate n).length : ℤ) ≤ max m 7 := by
  cases n with
  | zero => exact h
  | succ n =>
      rw [ladder]
      split <;> exact (length_withSuffix_le hm _ _).trans (le_max_left _ _)

/-! ## Identifiers -/

theorem exists_settle_of_generate {clock : ℕ} {rules : List Rule} {scope : Scope} {e : Element}
    {id : Text} (h : generate clock rules scope e = .ok id) :
    ∃ base, propose rules scope e = .ok base ∧
      settle clock (boundOf scope) scope.taken base = .ok id := by
  unfold generate at h
  cases hbase : propose rules scope e with
  | error reason =>
      rw [hbase] at h
      exact nomatch h
  | ok base =>
      rw [hbase] at h
      exact ⟨base, rfl, h⟩

theorem boundOf_pos {scope : Scope} (hlimit : ∀ m, scope.limit = some m → 0 ≤ m) :
    0 < (Limit.bound? scope.limit).getD defaultLimit := by
  cases hbound : Limit.bound? scope.limit with
  | none => decide
  | some m =>
      obtain ⟨hm, hne⟩ := Option.filter_eq_some_iff.mp hbound
      exact lt_of_le_of_ne (hlimit m hm) (Ne.symm (by simpa using hne))

/-- Whatever is proposed or generated is an identifier in shape: not empty, tidy, and no longer
than the bound or, under a bound below seven, than the fallback. -/
theorem identifier_shape (clock : ℕ) (rules : List Rule) (scope : Scope) (e : Element)
    (hlimit : ∀ m, scope.limit = some m → 0 ≤ m) (id : Text)
    (h : propose rules scope e = .ok id ∨ generate clock rules scope e = .ok id) :
    let bound := (Limit.bound? scope.limit).getD 50
    id ≠ [] ∧ Tidy id ∧ (7 ≤ bound → id.length ≤ bound) ∧ (bound < 7 → id.length ≤ 7) := by
  intro bound
  have hpos : 0 < bound := boundOf_pos hlimit
  have hbound : boundOf scope = some bound := rfl
  have hproposed : ∀ base, propose rules scope e = .ok base →
      base ≠ [] ∧ Tidy base ∧ (base.length : ℤ) ≤ max bound 7 := by
    intro base hbase
    obtain ⟨t, rfl⟩ := exists_clean_of_propose hbase
    rw [hbound]
    exact ⟨clean_ne_nil _ t, clean_tidy _ t, length_clean_le hpos t⟩
  obtain ⟨hne, htidy, hlength⟩ : id ≠ [] ∧ Tidy id ∧ (id.length : ℤ) ≤ max bound 7 := by
    rcases h with hpropose | hgenerate
    · exact hproposed id hpropose
    · obtain ⟨base, hbase, hsettle⟩ := exists_settle_of_generate hgenerate
      obtain ⟨hne, htidy, hlength⟩ := hproposed base hbase
      rw [hbound] at hsettle
      obtain ⟨n, rfl, _⟩ := resolve_eq_some_iff.mp (settle_eq_ok_iff.mp hsettle)
      refine ⟨ladder_ne_nil ?_ hne clock n, ladder_tidy htidy hne clock _ n,
        length_ladder_le hpos hlength clock n⟩
      intro m hm
      exact Option.some.inj hm ▸ hpos.le
  exact ⟨hne, htidy, fun hlong => by omega, fun hshort => by omega⟩

/-- A transform that leaves no letter gives the fallback; where that is taken, the bound of five cuts
it for the number. -/
theorem identifier_shape_fallback :
    let scope : Scope :=
      { taken := [fallback], strategy := .custom fun _ => .ok "?!".toList, limit := some 5 }
    let id := "ele-1".toList
    generate 0 [] scope { tag := ['a'] } = .ok id ∧ Tidy id ∧ id.length ≤ 7 := by
  intro scope id
  have hpropose : propose [] scope { tag := ['a'] } = .ok fallback :=
    (propose_nil _ _).trans (by decide)
  have hsettle : settle 0 (some 5) [fallback] fallback = .ok id := by
    rw [settle_eq_ok_iff, resolve_eq_some_iff]
    have hrung : ladder 0 (some 5) fallback 1 = id := by decide +kernel
    refine ⟨1, hrung, by rw [hrung]; decide, ?_⟩
    intro k hk
    obtain rfl : k = 0 := by omega
    decide
  have hgenerate : generate 0 [] scope { tag := ['a'] } = .ok id := by
    rw [generate, hpropose]
    exact hsettle
  have hlimit : ∀ m, scope.limit = some m → 0 ≤ m := by
    intro m hm
    obtain rfl : 5 = m := Option.some.inj hm
    decide
  obtain ⟨_, htidy, _, hshort⟩ := identifier_shape 0 [] scope _ hlimit id (.inr hgenerate)
  exact ⟨hgenerate, htidy, hshort (by decide)⟩

end MarkupIds.Naming
