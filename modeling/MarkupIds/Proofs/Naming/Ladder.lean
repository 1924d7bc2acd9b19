import MarkupIds.Naming.Proposal
import MarkupIds.Proofs.Text.Numeral
import MarkupIds.Proofs.Text.Trimming
import Mathlib.Data.Finset.Card
import Mathlib.Order.Interval.Finset.Nat

/-!
# The conflict ladder

The ladder is an infinite sequence of identifiers. Resolving a conflict searches a finite part of
it; that part holds a free identifier whenever the whole ladder does.
-/

namespace MarkupIds.Naming

/-- The candidate, its hundred numbered forms, and its stamped forms from the clock on. -/
def ladder (clock : ℕ) (limit : Limit) (candidate : Text) : ℕ → Text
  | 0 => candidate
  | n + 1 =>
    if n < 100 then numbered limit candidate (n + 1)
    else stamped limit candidate (clock + (n - 100))

/-- The `n`-th entry is the first one that is not taken. -/
def IsFirstFree (taken : List Text) (sequence : ℕ → Text) (n : ℕ) : Prop :=
  sequence n ∉ taken ∧ ∀ k < n, sequence k ∈ taken

@[simp] theorem ladder_zero (clock : ℕ) (limit : Limit) (candidate : Text) :
    ladder clock limit candidate 0 = candidate := rfl

theorem ladder_stamped (clock : ℕ) (limit : Limit) (candidate : Text) (k : ℕ) :
    ladder clock limit candidate (101 + k) = stamped limit candidate (clock + k) := by
  rw [show 101 + k = (100 + k) + 1 by omega, ladder, if_neg (by omega), Nat.add_sub_cancel_left]

/-! ## The searched part -/

theorem rungs_eq_map_ladder (clock : ℕ) (limit : Limit) (candidate : Text) :
    rungs limit candidate = (List.range 101).map (ladder clock limit candidate) := by
  rw [rungs, List.range_succ_eq_map, List.map_cons, List.map_map, ladder_zero,
    List.range'_eq_map_range, List.map_map]
  refine congrArg (candidate :: ·) (List.map_congr_left ?_)
  intro n hn
  simp only [Function.comp_apply, ladder, if_pos (List.mem_range.mp hn), Nat.add_comm 1 n]

theorem firstFreeStamp_eq_find? (limit : Limit) (candidate : Text) (taken : List Text)
    (steps stamp : ℕ) :
    firstFreeStamp limit candidate taken steps stamp =
      ((List.range steps).map fun k => stamped limit candidate (stamp + k)).find?
        (!taken.contains ·) := by
  induction steps generalizing stamp with
  | zero => rfl
  | succ steps ih =>
      rw [firstFreeStamp, List.range_succ_eq_map, List.map_cons, List.find?_cons, Nat.add_zero,
        List.map_map]
      cases htaken : taken.contains (stamped limit candidate stamp) with
      | false => simp
      | true =>
          simp only [if_pos, Bool.not_true, ih]
          congr 1
          apply List.map_congr_left
          intro k _
          simp only [Function.comp_apply, Nat.succ_eq_add_one, Nat.add_right_comm stamp 1 k,
            Nat.add_assoc]

/-- Resolving a conflict searches the first entries of the ladder. -/
theorem resolve_eq_find? (clock : ℕ) (limit : Limit) (taken : List Text) (candidate : Text) :
    resolve clock limit taken candidate =
      ((List.range (101 + stampSteps limit taken)).map (ladder clock limit candidate)).find?
        (!taken.contains ·) := by
  rw [resolve, rungs_eq_map_ladder clock, firstFreeStamp_eq_find?, List.range_add, List.map_append,
    List.find?_append, List.map_map]
  have hstamps : (List.range (stampSteps limit taken)).map
        (ladder clock limit candidate ∘ fun k => 101 + k) =
      (List.range (stampSteps limit taken)).map fun k => stamped limit candidate (clock + k) :=
    List.map_congr_left fun k _ => ladder_stamped clock limit candidate k
  rw [hstamps]
  cases List.find? (!taken.contains ·) ((List.range 101).map (ladder clock limit candidate)) <;> rfl

theorem find?_map_range_eq_some_iff {taken : List Text} {sequence : ℕ → Text} {steps : ℕ}
    {id : Text} :
    ((List.range steps).map sequence).find? (!taken.contains ·) = some id ↔
      ∃ n < steps, sequence n = id ∧ IsFirstFree taken sequence n := by
  rw [List.find?_map, Option.map_eq_some_iff]
  simp only [List.find?_range_eq_some, Function.comp_apply, Bool.not_eq_true', List.mem_range,
    List.contains_eq_mem, decide_eq_false_iff_not, Bool.not_not, decide_eq_true_eq, IsFirstFree]
  constructor
  · rintro ⟨n, ⟨hfree, hn, hbefore⟩, hid⟩
    exact ⟨n, hn, hid, hfree, hbefore⟩
  · rintro ⟨n, hn, hid, hfree, hbefore⟩
    exact ⟨n, ⟨hfree, hn, hbefore⟩, hid⟩

theorem find?_map_range_eq_none_iff {taken : List Text} {sequence : ℕ → Text} {steps : ℕ} :
    ((List.range steps).map sequence).find? (!taken.contains ·) = none ↔
      ∀ n < steps, sequence n ∈ taken := by
  simp [List.find?_eq_none]

/-! ## Suffix forms under a bound -/

theorem withSuffix_of_unbounded {limit : Limit} (h : limit.bound? = none) (base suffix : Text) :
    withSuffix limit base suffix = base ++ '-' :: suffix := by
  simp [withSuffix, h]

theorem bound?_some {m : ℤ} (hm : m ≠ 0) : Limit.bound? (some m) = some m := by
  simp [Limit.bound?, hm]

/-- Under a negative bound only the end of the suffix is left. -/
theorem withSuffix_of_neg {m : ℤ} (hm : m < 0) (base suffix : Text) :
    withSuffix (some m) base suffix = suffix.drop m.natAbs := by
  have hlong : ¬ ((base ++ '-' :: suffix).length : ℤ) ≤ m := by omega
  have hroom : (m - suffix.length - 1).toNat = 0 := by omega
  simp only [withSuffix, bound?_some (show m ≠ 0 by omega), if_neg hlong, hroom, List.take_zero,
    Text.dropTailWhile, List.reverse_nil, List.dropWhile_nil]
  rw [if_neg (by omega)]

/-- A suffix that fills the bound loses its head, and the base is gone. -/
theorem withSuffix_of_le_length {m : ℕ} (hm : 1 ≤ m) {suffix : Text} (h : m ≤ suffix.length)
    (base : Text) :
    withSuffix (some m) base suffix = suffix.drop (suffix.length - m) := by
  have hlong : ¬ ((base ++ '-' :: suffix).length : ℤ) ≤ m := by
    simp only [List.length_append, List.length_cons]
    omega
  have hroom : ((m : ℤ) - suffix.length - 1).toNat = 0 := by omega
  simp only [withSuffix, bound?_some (show (m : ℤ) ≠ 0 by omega), if_neg hlong, hroom,
    List.take_zero, Text.dropTailWhile, List.reverse_nil, List.dropWhile_nil]
  rw [if_pos (by omega), Int.toNat_natCast]

theorem stamped_of_neg {m : ℤ} (hm : m < 0) {n : ℕ} (hn : 0 < n) (candidate : Text) :
    stamped (some m) candidate n =
      Text.lastDigits ((Text.ofNat 36 n).length - m.natAbs) n := by
  rw [stamped, withSuffix_of_neg hm, Text.drop_ofNat hn]

theorem stamped_of_pow_le {m : ℕ} (hm : 1 ≤ m) {n : ℕ} (hn : 36 ^ m ≤ n) (candidate : Text) :
    stamped (some m) candidate n = Text.lastDigits m n := by
  have hlong := Text.lt_length_ofNat hn
  have hpos : 0 < n := Nat.lt_of_lt_of_le (Nat.pow_pos (by omega)) hn
  rw [stamped, withSuffix_of_le_length hm (by omega), Text.drop_ofNat hpos]
  congr 1
  omega

/-! ## What the rungs look like -/

/-- What is left of a text without the separators at its end. -/
structure Trimmed (t front : Text) : Prop where
  gap : ∃ gap, t = front ++ gap ∧ ∀ c ∈ gap, isSeparator c = true
  ending : ∀ c ∈ front.getLast?, isSeparator c = false

/-- The forms of a base with a suffix: as a whole if the bound allows it, else with a shortened
base, or with the end of the suffix alone where nothing would be left of the base. -/
inductive SuffixForm (limit : Limit) (base suffix : Text) : Text → Prop where
  | whole (h : ∀ m ∈ limit.bound?, (base.length + 1 + suffix.length : ℤ) ≤ m) :
      SuffixForm limit base suffix (base ++ '-' :: suffix)
  | shortened {m : ℕ} {front : Text} (hm : limit.bound? = some (m : ℤ))
      (hlong : m < base.length + 1 + suffix.length)
      (hfront : Trimmed (base.take (m - (suffix.length + 1))) front) (hne : front ≠ []) :
      SuffixForm limit base suffix (front ++ '-' :: suffix)
  | bare {m : ℕ} (hm : limit.bound? = some (m : ℤ))
      (hlong : m < base.length + 1 + suffix.length)
      (hnone : Trimmed (base.take (m - (suffix.length + 1))) []) :
      SuffixForm limit base suffix (suffix.drop (suffix.length - m))
  | negative {m : ℤ} (hm : limit.bound? = some m) (hneg : m < 0) :
      SuffixForm limit base suffix (suffix.drop m.natAbs)

/-- The base of a numbered form: past the tenth, a candidate of more than 30 characters is cut
to 25. -/
inductive NumberedBase (candidate : Text) (n : ℕ) : Text → Prop where
  | candidate (h : n ≤ 10 ∨ candidate.length ≤ 30) : NumberedBase candidate n candidate
  | cut {front : Text} (hn : 10 < n) (hlong : 30 < candidate.length)
      (hfront : Trimmed (candidate.take 25) front) : NumberedBase candidate n front

/-- The numeral of a number in a base up to 36: its digits, the most significant one first. -/
def numeral (base n : ℕ) : Text :=
  (Text.places base n).reverse.map fun d =>
    "0123456789abcdefghijklmnopqrstuvwxyz".toList.getD d '0'

theorem ofNat_eq_numeral {base : ℕ} (hlo : 2 ≤ base) (hhi : base ≤ 36) (n : ℕ) :
    Text.ofNat base n = numeral base n := by
  have hdigits : ∀ d < 36,
      Text.digitChar d = "0123456789abcdefghijklmnopqrstuvwxyz".toList.getD d '0' := by
    decide
  rw [Text.ofNat_eq_places hlo, numeral]
  refine List.map_congr_left fun d hd => hdigits d ?_
  exact (Text.places_lt hlo d (List.mem_reverse.mp hd)).trans_le hhi

theorem Trimmed.dropTailWhile (t : Text) : Trimmed t (Text.dropTailWhile isSeparator t) := by
  refine ⟨?_, Text.getLast?_dropTailWhile t⟩
  refine ⟨(t.reverse.takeWhile isSeparator).reverse, ?_, fun c hc => ?_⟩
  · rw [Text.dropTailWhile, ← List.reverse_append, List.takeWhile_append_dropWhile,
      List.reverse_reverse]
  · exact List.mem_takeWhile_imp (List.mem_reverse.mp hc)

theorem withSuffix_form (limit : Limit) (base suffix : Text) :
    SuffixForm limit base suffix (withSuffix limit base suffix) := by
  have hlength : (base ++ '-' :: suffix).length = base.length + 1 + suffix.length := by
    rw [List.length_append, List.length_cons, Nat.add_assoc, Nat.add_comm 1]
  cases hbound : limit.bound? with
  | none =>
      rw [withSuffix_of_unbounded hbound]
      exact .whole (by simp [hbound])
  | some m =>
      obtain ⟨rfl, hm⟩ := Option.filter_eq_some_iff.mp hbound
      rcases lt_or_gt_of_ne (show m ≠ 0 by simpa using hm) with hneg | hpos
      · rw [withSuffix_of_neg hneg]
        exact .negative hbound hneg
      · obtain ⟨m, rfl⟩ := Int.eq_ofNat_of_zero_le hpos.le
        by_cases hfits : base.length + 1 + suffix.length ≤ m
        · have hwhole : withSuffix (some (m : ℤ)) base suffix = base ++ '-' :: suffix := by
            simp only [withSuffix, hbound, hlength, Nat.cast_le, if_pos hfits]
          rw [hwhole]
          exact .whole (by simpa [hbound] using by exact_mod_cast hfits)
        · have hroom : ((m : ℤ) - suffix.length - 1).toNat = m - (suffix.length + 1) := by omega
          have hlong : m < base.length + 1 + suffix.length := Nat.not_le.mp hfits
          have htrimmed := Trimmed.dropTailWhile (base.take (m - (suffix.length + 1)))
          simp only [withSuffix, hbound, hlength, Nat.cast_le, if_neg hfits, hroom]
          split
          · rename_i hnone
            rw [hnone] at htrimmed
            rw [if_pos hpos, Int.toNat_natCast]
            exact .bare hbound hlong htrimmed
          · rename_i hne
            exact .shortened hbound hlong htrimmed hne

theorem numberedBase_spec (candidate : Text) (n : ℕ) :
    NumberedBase candidate n (numberedBase candidate n) := by
  unfold numberedBase
  split
  · rename_i hcut
    rw [Bool.and_eq_true, decide_eq_true_eq, decide_eq_true_eq] at hcut
    exact .cut hcut.1 hcut.2 (Trimmed.dropTailWhile _)
  · rename_i hkept
    rw [Bool.and_eq_true, decide_eq_true_eq, decide_eq_true_eq] at hkept
    exact .candidate (by omega)

/-- The rungs of the ladder: the candidate, its forms with the numbers up to 100 in decimal, and
its forms with the stamps from the clock on in base 36. -/
theorem ladder_rungs (clock : ℕ) (limit : Limit) (candidate : Text) :
    ladder clock limit candidate 0 = candidate ∧
    (∀ n, 1 ≤ n → n ≤ 100 → ∃ base, NumberedBase candidate n base ∧
      SuffixForm limit base (numeral 10 n) (ladder clock limit candidate n)) ∧
    ∀ k, SuffixForm limit candidate (numeral 36 (clock + k))
      (ladder clock limit candidate (101 + k)) := by
  refine ⟨rfl, fun n hfirst hlast => ?_, fun k => ?_⟩
  · obtain ⟨n, rfl⟩ := Nat.exists_eq_add_of_le' hfirst
    refine ⟨_, numberedBase_spec candidate (n + 1), ?_⟩
    rw [ladder, if_pos (by omega), numbered, Text.decimal,
      ofNat_eq_numeral (by omega) (by omega)]
    exact withSuffix_form _ _ _
  · rw [ladder_stamped, stamped, ofNat_eq_numeral (by omega) (by omega)]
    exact withSuffix_form _ _ _

/-! ## A free stamp within reach -/

/-- More distinct entries than taken identifiers leave one of the entries free. -/
theorem exists_free_of_card_lt {taken : List Text} {sequence : ℕ → Text} {size : ℕ}
    (hsize : taken.toFinset.card < size)
    (h : ∀ i < size, ∀ j < size, sequence i = sequence j → i = j) :
    ∃ i < size, sequence i ∉ taken := by
  have hcard : taken.toFinset.card < ((Finset.range size).image sequence).card := by
    rw [Finset.card_image_of_injOn, Finset.card_range]
    · exact hsize
    · intro i hi j hj hij
      exact h i (Finset.mem_range.mp hi) j (Finset.mem_range.mp hj) hij
  obtain ⟨id, hid, hfree⟩ := Finset.exists_mem_notMem_of_card_lt_card hcard
  obtain ⟨i, hi, rfl⟩ := Finset.mem_image.mp hid
  exact ⟨i, Finset.mem_range.mp hi, fun htaken => hfree (List.mem_toFinset.mpr htaken)⟩

theorem exists_free_of_distinct (taken : List Text) (sequence : ℕ → Text)
    (h : ∀ i ≤ taken.length, ∀ j ≤ taken.length, sequence i = sequence j → i = j) :
    ∃ i ≤ taken.length, sequence i ∉ taken := by
  have hlength := List.toFinset_card_le taken
  have hsize : taken.toFinset.card < taken.length + 1 := by omega
  obtain ⟨i, hi, hfree⟩ := exists_free_of_card_lt hsize
    (fun i hi j hj => h i (by omega) j (by omega))
  exact ⟨i, by omega, hfree⟩

theorem stampSteps_eq (limit : Limit) (taken : List Text) :
    stampSteps limit taken =
      36 ^ ((limit.getD 0).natAbs + taken.length + 1) + taken.length + 2 := rfl

theorem length_lt_stampSteps (limit : Limit) (taken : List Text) :
    taken.length < stampSteps limit taken := by
  have hpower := Nat.zero_le (36 ^ ((limit.getD 0).natAbs + taken.length + 1))
  rw [stampSteps_eq]
  omega

theorem exists_free_stamp_of_unbounded {limit : Limit} (h : limit.bound? = none) (clock : ℕ)
    (taken : List Text) (candidate : Text) :
    ∃ k < stampSteps limit taken, stamped limit candidate (clock + k) ∉ taken := by
  obtain ⟨k, hk, hfree⟩ := exists_free_of_distinct taken
    (fun k => stamped limit candidate (clock + k)) (by
      intro i _ j _ hij
      simp only [stamped, withSuffix_of_unbounded h, List.append_cancel_left_eq,
        List.cons.injEq, true_and] at hij
      exact Nat.add_left_cancel (Text.ofNat_injective (by omega) (by omega) hij))
  exact ⟨k, hk.trans_lt (length_lt_stampSteps limit taken), hfree⟩

/-- Under a negative bound the stamps that have outgrown it and the taken identifiers differ from
each other in their remaining digits. -/
theorem stamped_distinct_of_neg {m : ℤ} (hm : m < 0) {size start : ℕ}
    (hstart : 36 ^ (m.natAbs + size) ≤ start) (candidate : Text) {i j : ℕ} (hi : i ≤ size)
    (hj : j ≤ size)
    (h : stamped (some m) candidate (start + i) = stamped (some m) candidate (start + j)) :
    i = j := by
  have hlong : ∀ k : ℕ, m.natAbs + size < (Text.ofNat 36 (start + k)).length := fun k =>
    Text.lt_length_ofNat (hstart.trans (Nat.le_add_right start k))
  have hpos : ∀ k : ℕ, 0 < start + k := fun k =>
    Nat.lt_of_lt_of_le (Nat.pow_pos (by omega)) (hstart.trans (Nat.le_add_right start k))
  have hlength : (Text.ofNat 36 (start + i)).length = (Text.ofNat 36 (start + j)).length := by
    have hdropped := congrArg List.length h
    rw [stamped, stamped, withSuffix_of_neg hm, withSuffix_of_neg hm, List.length_drop,
      List.length_drop] at hdropped
    have hi := hlong i
    have hj := hlong j
    omega
  rw [stamped_of_neg hm (hpos i), stamped_of_neg hm (hpos j), hlength] at h
  have hmod : start + i ≡ start + j [MOD
      36 ^ ((Text.ofNat 36 (start + j)).length - m.natAbs)] := Text.lastDigits_inj h
  have hsize : size < 36 ^ ((Text.ofNat 36 (start + j)).length - m.natAbs) := by
    have hj := hlong j
    calc size < 36 ^ size := Nat.lt_pow_self (by omega)
      _ ≤ 36 ^ ((Text.ofNat 36 (start + j)).length - m.natAbs) :=
        Nat.pow_le_pow_right (by omega) (by omega)
  exact (Nat.ModEq.add_left_cancel' start hmod).eq_of_lt_of_lt (by omega) (by omega)

theorem exists_free_stamp_of_neg {m : ℤ} (hm : m < 0) (clock : ℕ) (taken : List Text)
    (candidate : Text) :
    ∃ k < stampSteps (some m) taken, stamped (some m) candidate (clock + k) ∉ taken := by
  let start := max clock (36 ^ (m.natAbs + taken.length))
  have hclock : clock ≤ start := le_max_left _ _
  have hpower : 36 ^ (m.natAbs + taken.length) ≤ start := le_max_right _ _
  obtain ⟨i, hi, hfree⟩ := exists_free_of_distinct taken
    (fun i => stamped (some m) candidate (start + i))
    (fun i hi j hj => stamped_distinct_of_neg hm hpower candidate hi hj)
  refine ⟨start + i - clock, ?_, ?_⟩
  · have hbound : start ≤ clock + 36 ^ (m.natAbs + taken.length) :=
      max_le (Nat.le_add_right _ _) (Nat.le_add_left _ _)
    have hgrow : 36 ^ (m.natAbs + taken.length) ≤ 36 ^ (m.natAbs + taken.length + 1) :=
      Nat.pow_le_pow_right (by omega) (by omega)
    simp only [stampSteps_eq, Option.getD_some]
    omega
  · rwa [Nat.add_sub_cancel' (by omega)]

/-- Under a positive bound the stamps run in a circle once they fill the bound, so every stamp has
an equal one within reach. -/
theorem exists_stamped_eq_of_pos {m : ℕ} (hm : 1 ≤ m) (clock : ℕ) (taken : List Text)
    (candidate : Text) (k : ℕ) :
    ∃ j < stampSteps (some (m : ℤ)) taken,
      stamped (some (m : ℤ)) candidate (clock + j) =
        stamped (some (m : ℤ)) candidate (clock + k) := by
  have hpos : 0 < 36 ^ m := Nat.pow_pos (by omega)
  have hsteps : 36 ^ m + 36 ^ m < stampSteps (some (m : ℤ)) taken := by
    have hgrow : 36 ^ (m + 1) ≤ 36 ^ (m + taken.length + 1) :=
      Nat.pow_le_pow_right (by omega) (by omega)
    simp only [stampSteps_eq, Option.getD_some, Int.natAbs_natCast]
    rw [pow_succ] at hgrow
    omega
  by_cases hk : k < 36 ^ m + 36 ^ m
  · exact ⟨k, by omega, rfl⟩
  · -- Go back from `k` by whole circles to the first circle after `36 ^ m`.
    refine ⟨36 ^ m + (k - 36 ^ m) % 36 ^ m, ?_, ?_⟩
    · have hlt := Nat.mod_lt (k - 36 ^ m) hpos
      omega
    · rw [stamped_of_pow_le hm (by omega), stamped_of_pow_le hm (by omega)]
      apply Text.lastDigits_eq_of_mod_eq (by omega) (by omega)
      have hmod : 36 ^ m + (k - 36 ^ m) % 36 ^ m ≡ 36 ^ m + (k - 36 ^ m) [MOD 36 ^ m] :=
        (Nat.mod_modEq _ _).add_left _
      rw [Nat.add_sub_cancel' (by omega)] at hmod
      exact hmod.add_left clock

theorem exists_free_stamp_lt (limit : Limit) (clock : ℕ) (taken : List Text) (candidate : Text)
    {k : ℕ} (h : stamped limit candidate (clock + k) ∉ taken) :
    ∃ j < stampSteps limit taken, stamped limit candidate (clock + j) ∉ taken := by
  cases hbound : limit.bound? with
  | none => exact exists_free_stamp_of_unbounded hbound clock taken candidate
  | some m =>
      obtain ⟨hlimit, hm⟩ := Option.filter_eq_some_iff.mp hbound
      subst hlimit
      rcases lt_or_gt_of_ne (show m ≠ 0 by simpa using hm) with hneg | hpos
      · exact exists_free_stamp_of_neg hneg clock taken candidate
      · obtain ⟨n, rfl⟩ := Int.eq_ofNat_of_zero_le hpos.le
        obtain ⟨j, hj, heq⟩ :=
          exists_stamped_eq_of_pos (m := n) (by omega) clock taken candidate k
        exact ⟨j, hj, by rwa [heq]⟩

/-! ## Words that the stamps reach -/

/-- Every word that fills a positive bound is a stamp later than any clock. -/
theorem exists_stamped_eq_word {m : ℕ} (hm : 1 ≤ m) {w : Text} (hlength : w.length = m)
    (hdigits : ∀ c ∈ w, Text.isBase36Digit c = true) (clock : ℕ) (candidate : Text) :
    ∃ k, stamped (some (m : ℤ)) candidate (clock + k) = w := by
  obtain ⟨ds, hds, hsame, rfl⟩ := Text.exists_digits_of_base36 hdigits
  have hvalue : Nat.ofDigits 36 ds < 36 ^ m := by
    have hlt := Nat.ofDigits_lt_base_pow_length (b := 36) (by omega) hds
    rwa [hsame, hlength] at hlt
  have hcircle : clock + 1 ≤ 36 ^ m * (clock + 1) :=
    Nat.le_mul_of_pos_left (clock + 1) (Nat.pow_pos (by omega))
  have hlong : 36 ^ m ≤ 36 ^ m * (clock + 1) := Nat.le_mul_of_pos_right _ (by omega)
  refine ⟨36 ^ m * (clock + 1) + Nat.ofDigits 36 ds - clock, ?_⟩
  rw [Nat.add_sub_cancel' (by omega), stamped_of_pow_le hm (by omega)]
  apply Text.lastDigits_eq_of_mod hds (by omega) (by omega)
  rw [Nat.mul_add_mod, Nat.mod_eq_of_lt hvalue]

theorem exists_free_word {taken : List Text} {m : ℕ} (h : taken.toFinset.card < 36 ^ m) :
    ∃ w : Text, w.length = m ∧ (∀ c ∈ w, Text.isBase36Digit c = true) ∧ w ∉ taken := by
  have hdistinct : ∀ i < 36 ^ m, ∀ j < 36 ^ m,
      Text.lastDigits m (36 ^ m + i) = Text.lastDigits m (36 ^ m + j) → i = j := by
    intro i hi j hj hij
    have hmod : 36 ^ m + i ≡ 36 ^ m + j [MOD 36 ^ m] := Text.lastDigits_inj hij
    exact (Nat.ModEq.add_left_cancel' _ hmod).eq_of_lt_of_lt hi hj
  obtain ⟨i, _, hfree⟩ := exists_free_of_card_lt h hdistinct
  have hlong : m < (Nat.digits 36 (36 ^ m + i)).length :=
    (Nat.lt_digits_length_iff (by omega) _).mpr (Nat.le_add_right _ _)
  refine ⟨Text.lastDigits m (36 ^ m + i), ?_, ?_, hfree⟩
  · simp only [Text.lastDigits, List.length_map, List.length_reverse, List.length_take]
    omega
  · intro c hc
    obtain ⟨d, hd, rfl⟩ := List.mem_map.mp hc
    have hmem := List.mem_of_mem_take (List.mem_reverse.mp hd)
    exact Text.isBase36Digit_digitChar d (Nat.digits_lt_base (by omega) hmem)

/-! ## The first free identifier -/

/-- If the searched part of the ladder is taken, the whole ladder is. -/
theorem ladder_mem_of_resolve_eq_none {clock : ℕ} {limit : Limit} {taken : List Text}
    {candidate : Text} (h : resolve clock limit taken candidate = none) (n : ℕ) :
    ladder clock limit candidate n ∈ taken := by
  rw [resolve_eq_find?, find?_map_range_eq_none_iff] at h
  by_cases hn : n < 101
  · exact h n (by omega)
  · obtain ⟨k, rfl⟩ := Nat.exists_eq_add_of_le (show 101 ≤ n by omega)
    rw [ladder_stamped]
    by_contra hfree
    obtain ⟨j, hj, hstamp⟩ := exists_free_stamp_lt limit clock taken candidate hfree
    apply hstamp
    rw [← ladder_stamped]
    exact h (101 + j) (by omega)

theorem resolve_eq_some_iff {clock : ℕ} {limit : Limit} {taken : List Text}
    {candidate id : Text} :
    resolve clock limit taken candidate = some id ↔
      ∃ n, ladder clock limit candidate n = id ∧
        IsFirstFree taken (ladder clock limit candidate) n := by
  constructor
  · intro h
    rw [resolve_eq_find?, find?_map_range_eq_some_iff] at h
    obtain ⟨n, _, hid, hfirst⟩ := h
    exact ⟨n, hid, hfirst⟩
  · rintro ⟨n, hid, hfree, hbefore⟩
    rw [resolve_eq_find?, find?_map_range_eq_some_iff]
    refine ⟨n, ?_, hid, hfree, hbefore⟩
    by_contra hfar
    apply hfree
    apply ladder_mem_of_resolve_eq_none
    rw [resolve_eq_find?, find?_map_range_eq_none_iff]
    intro k hk
    exact hbefore k (by omega)

theorem resolve_isSome_of_free {clock : ℕ} {limit : Limit} {taken : List Text}
    {candidate : Text} {n : ℕ} (h : ladder clock limit candidate n ∉ taken) :
    ∃ id, resolve clock limit taken candidate = some id := by
  cases hresolve : resolve clock limit taken candidate with
  | none => exact absurd (ladder_mem_of_resolve_eq_none hresolve n) h
  | some id => exact ⟨id, rfl⟩

theorem settle_eq_ok_iff {clock : ℕ} {limit : Limit} {taken : List Text} {candidate id : Text} :
    settle clock limit taken candidate = .ok id ↔
      resolve clock limit taken candidate = some id := by
  unfold settle
  cases resolve clock limit taken candidate <;> simp

theorem settle_eq_error_iff {clock : ℕ} {limit : Limit} {taken : List Text} {candidate : Text} :
    settle clock limit taken candidate = .error (.exhausted candidate) ↔
      ∀ n, ladder clock limit candidate n ∈ taken := by
  constructor
  · intro h
    apply ladder_mem_of_resolve_eq_none
    cases hresolve : resolve clock limit taken candidate with
    | none => rfl
    | some id => simp [settle_eq_ok_iff.mpr hresolve] at h
  · intro h
    cases hresolve : resolve clock limit taken candidate with
    | none => simp [settle, hresolve]
    | some id =>
        obtain ⟨n, _, hfree, _⟩ := resolve_eq_some_iff.mp hresolve
        exact absurd (h n) hfree

/-- One free stamp is enough. -/
theorem exists_settle_of_stamped {clock : ℕ} {limit : Limit} {taken : List Text}
    {candidate : Text} {k : ℕ} (h : stamped limit candidate (clock + k) ∉ taken) :
    ∃ id, settle clock limit taken candidate = .ok id := by
  rw [← ladder_stamped] at h
  obtain ⟨id, hid⟩ := resolve_isSome_of_free h
  exact ⟨id, settle_eq_ok_iff.mpr hid⟩

theorem exists_settle_of_nonpos {limit : Limit} (hlimit : ∀ m, limit = some m → m ≤ 0)
    (clock : ℕ) (taken : List Text) (candidate : Text) :
    ∃ id, settle clock limit taken candidate = .ok id := by
  cases hbound : limit.bound? with
  | none =>
      obtain ⟨k, _, hfree⟩ := exists_free_stamp_of_unbounded hbound clock taken candidate
      exact exists_settle_of_stamped hfree
  | some m =>
      obtain ⟨rfl, hm⟩ := Option.filter_eq_some_iff.mp hbound
      have hneg : m < 0 := lt_of_le_of_ne (hlimit m rfl) (by simpa using hm)
      obtain ⟨k, _, hfree⟩ := exists_free_stamp_of_neg hneg clock taken candidate
      exact exists_settle_of_stamped hfree

/-- A free word that fills the bound is reached by some stamp. -/
theorem exists_settle_of_word {m : ℕ} (hm : 1 ≤ m) (clock : ℕ) {taken : List Text}
    (candidate : Text) {w : Text} (hlength : w.length = m)
    (hdigits : ∀ c ∈ w, Text.isBase36Digit c = true) (hfree : w ∉ taken) :
    ∃ id, settle clock (some (m : ℤ)) taken candidate = .ok id := by
  obtain ⟨k, rfl⟩ := exists_stamped_eq_word hm hlength hdigits clock candidate
  exact exists_settle_of_stamped hfree

/-- A free candidate is kept. -/
theorem settle_of_not_mem (clock : ℕ) (limit : Limit) {taken : List Text} {candidate : Text}
    (h : candidate ∉ taken) : settle clock limit taken candidate = .ok candidate := by
  rw [settle_eq_ok_iff, resolve_eq_some_iff]
  exact ⟨0, rfl, h, by simp⟩

theorem settle_not_mem {clock : ℕ} {limit : Limit} {taken : List Text} {candidate id : Text}
    (h : settle clock limit taken candidate = .ok id) : id ∉ taken := by
  obtain ⟨n, rfl, hfree, _⟩ := resolve_eq_some_iff.mp (settle_eq_ok_iff.mp h)
  exact hfree

/-- Settling a candidate finds the first free identifier of the infinite ladder and fails only if
the whole ladder is taken. It succeeds without a positive bound, and under a positive bound when
some word that fills the bound is free. -/
theorem settle_finds_first_free (clock : ℕ) (limit : Limit) (taken : List Text)
    (candidate : Text) :
    (∀ id, settle clock limit taken candidate = .ok id ↔
      ∃ n, ladder clock limit candidate n = id ∧
        IsFirstFree taken (ladder clock limit candidate) n) ∧
    (settle clock limit taken candidate = .error (.exhausted candidate) ↔
      ∀ n, ladder clock limit candidate n ∈ taken) ∧
    ((∀ m, limit = some m → m ≤ 0) → ∃ id, settle clock limit taken candidate = .ok id) ∧
    (∀ m : ℕ, 1 ≤ m → limit = some (m : ℤ) →
      (∃ w : Text, w.length = m ∧ (∀ c ∈ w, Text.isBase36Digit c = true) ∧ w ∉ taken) →
      ∃ id, settle clock limit taken candidate = .ok id) ∧
    (∀ m : ℕ, 1 ≤ m → limit = some (m : ℤ) → taken.toFinset.card < 36 ^ m →
      ∃ id, settle clock limit taken candidate = .ok id) := by
  refine ⟨?_, settle_eq_error_iff, ?_, ?_, ?_⟩
  · intro id
    rw [settle_eq_ok_iff, resolve_eq_some_iff]
  · intro hlimit
    exact exists_settle_of_nonpos hlimit clock taken candidate
  · rintro m hm rfl ⟨w, hlength, hdigits, hfree⟩
    exact exists_settle_of_word hm clock candidate hlength hdigits hfree
  · rintro m hm rfl hcard
    obtain ⟨w, hlength, hdigits, hfree⟩ := exists_free_word hcard
    exact exists_settle_of_word hm clock candidate hlength hdigits hfree

/-- The second form of a taken candidate is free; the eleventh of a long one has its base cut. Under
a bound of one character some digit is free. -/
theorem settle_finds_first_free_taken :
    let long := List.replicate 31 'a'
    settle 0 (some 50) ["ab".toList, "ab-1".toList] "ab".toList = .ok "ab-2".toList ∧
      settle 0 none ((List.range 11).map (ladder 0 none long)) long =
        .ok (List.replicate 25 'a' ++ "-11".toList) ∧
      ∃ id, settle 0 (some 1) ["ab".toList, ['1']] "ab".toList = .ok id := by
  intro long
  obtain ⟨hshort, _⟩ :=
    settle_finds_first_free 0 (some 50) ["ab".toList, "ab-1".toList] "ab".toList
  obtain ⟨hlong, _⟩ :=
    settle_finds_first_free 0 none ((List.range 11).map (ladder 0 none long)) long
  obtain ⟨_, _, _, _, hcount⟩ :=
    settle_finds_first_free 0 (some 1) ["ab".toList, ['1']] "ab".toList
  refine ⟨(hshort _).mpr ⟨2, ?_, ?_, ?_⟩, (hlong _).mpr ⟨11, ?_, ?_, fun k hk => ?_⟩,
    hcount 1 le_rfl rfl (by decide)⟩
  · decide +kernel
  · decide +kernel
  · decide +kernel
  · decide +kernel
  · decide +kernel
  · exact List.mem_map_of_mem (List.mem_range.mpr hk)

end MarkupIds.Naming
