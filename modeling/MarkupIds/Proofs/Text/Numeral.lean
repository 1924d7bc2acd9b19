import MarkupIds.Text.Numeral
import Mathlib.Data.Nat.Digits.Lemmas

/-!
# Numerals as positional digits

A numeral is the list of digits of its number, most significant first. The last `m` characters of
a long numeral depend on the number modulo `36 ^ m` only.
-/

namespace MarkupIds.Text

theorem digitsRev_eq_digits {base : ℕ} (hbase : 2 ≤ base) (n : ℕ) :
    digitsRev base n = Nat.digits base n := by
  induction n using Nat.strong_induction_on with
  | _ n ih =>
      rw [digitsRev]
      by_cases hn : 0 < n
      · rw [dif_pos ⟨hbase, hn⟩, Nat.digits_def' (by omega) hn,
          ih (n / base) (Nat.div_lt_self hn hbase)]
      · have hzero : n = 0 := by omega
        subst hzero
        simp

/-! ## Digit characters -/

/-- The characters that stand for digits in base 36. -/
def isBase36Digit (c : Char) : Bool :=
  isAsciiDigit c || isAsciiLower c

theorem isBase36Digit_digitChar : ∀ d < 36, isBase36Digit (digitChar d) = true := by
  decide

theorem digitChar_inj : ∀ d < 36, ∀ e < 36, digitChar d = digitChar e → d = e := by
  decide +kernel

theorem exists_digitChar_eq {c : Char} (h : isBase36Digit c = true) :
    ∃ d < 36, digitChar d = c := by
  simp only [isBase36Digit, isAsciiDigit, isAsciiLower, Bool.or_eq_true, Bool.and_eq_true,
    decide_eq_true_eq, Char.le_def, UInt32.le_iff_toNat_le] at h
  have hc : Char.ofNat c.toNat = c := Char.ofNat_toNat c
  rcases h with ⟨hlo, hhi⟩ | ⟨hlo, hhi⟩
  · change 48 ≤ c.toNat at hlo
    change c.toNat ≤ 57 at hhi
    refine ⟨c.toNat - 48, by omega, ?_⟩
    rw [digitChar, if_pos (by omega), show '0'.toNat + (c.toNat - 48) = c.toNat by
      change 48 + (c.toNat - 48) = c.toNat
      omega, hc]
  · change 97 ≤ c.toNat at hlo
    change c.toNat ≤ 122 at hhi
    refine ⟨c.toNat - 87, by omega, ?_⟩
    rw [digitChar, if_neg (by omega), show 'a'.toNat + (c.toNat - 87 - 10) = c.toNat by
      change 97 + (c.toNat - 87 - 10) = c.toNat
      omega, hc]

theorem map_digitChar_inj {xs ys : List ℕ} (hx : ∀ d ∈ xs, d < 36) (hy : ∀ d ∈ ys, d < 36)
    (h : xs.map digitChar = ys.map digitChar) : xs = ys := by
  induction xs generalizing ys with
  | nil => simpa [eq_comm] using h
  | cons x xs ih =>
      cases ys with
      | nil => simp at h
      | cons y ys =>
          simp only [List.map_cons, List.cons.injEq] at h
          have hhead : x = y := digitChar_inj x (hx x (by simp)) y (hy y (by simp)) h.1
          rw [hhead, ih (fun d hd => hx d (by simp [hd])) (fun d hd => hy d (by simp [hd])) h.2]

/-- Every text over the digits of base 36 writes a list of digits. -/
theorem exists_digits_of_base36 {w : Text} (h : ∀ c ∈ w, isBase36Digit c = true) :
    ∃ ds : List ℕ, (∀ d ∈ ds, d < 36) ∧ ds.length = w.length ∧ ds.reverse.map digitChar = w := by
  induction w with
  | nil => exact ⟨[], by simp, rfl, rfl⟩
  | cons c w ih =>
      obtain ⟨d, hd, hc⟩ := exists_digitChar_eq (h c (by simp))
      obtain ⟨ds, hds, hlength, hw⟩ := ih (fun c hc => h c (by simp [hc]))
      refine ⟨ds ++ [d], ?_, by simp [hlength], by simp [hw, hc]⟩
      intro e he
      rcases List.mem_append.mp he with he | he
      · exact hds e he
      · simpa [List.mem_singleton.mp he] using hd

/-! ## Numerals -/

/-- The digits of a number, least significant first; zero has one. -/
def places (base n : ℕ) : List ℕ :=
  if n = 0 then [0] else Nat.digits base n

theorem places_of_pos (base : ℕ) {n : ℕ} (hn : 0 < n) : places base n = Nat.digits base n := by
  simp [places, Nat.ne_of_gt hn]

theorem ofDigits_places (base n : ℕ) : Nat.ofDigits base (places base n) = n := by
  unfold places
  split
  · rename_i h
    simp [h]
  · exact Nat.ofDigits_digits base n

theorem places_lt {base n : ℕ} (hbase : 2 ≤ base) : ∀ d ∈ places base n, d < base := by
  intro d hd
  unfold places at hd
  split at hd
  · simp only [List.mem_singleton] at hd
    omega
  · exact Nat.digits_lt_base (by omega) hd

theorem ofNat_eq_places {base : ℕ} (hbase : 2 ≤ base) (n : ℕ) :
    ofNat base n = (places base n).reverse.map digitChar := by
  unfold ofNat places
  rw [digitsRev_eq_digits hbase]
  by_cases hn : n = 0
  · subst hn
    simp [digitChar]
  · have hne : (Nat.digits base n).reverse ≠ [] := by
      simpa using Nat.digits_ne_nil_iff_ne_zero.mpr hn
    cases hdigits : (Nat.digits base n).reverse with
    | nil => exact absurd hdigits hne
    | cons d ds => simp [hn, hdigits]

theorem ofNat_ne_nil {base : ℕ} (hbase : 2 ≤ base) (n : ℕ) : ofNat base n ≠ [] := by
  rw [ofNat_eq_places hbase]
  unfold places
  split
  · simp
  · rename_i hn
    simpa using Nat.digits_ne_nil_iff_ne_zero.mpr hn

theorem ofNat_injective {base : ℕ} (hlo : 2 ≤ base) (hhi : base ≤ 36) :
    Function.Injective (ofNat base) := by
  intro n k h
  rw [ofNat_eq_places hlo, ofNat_eq_places hlo] at h
  have hlt : ∀ i : ℕ, ∀ d ∈ (places base i).reverse, d < 36 := by
    intro i d hd
    exact (places_lt hlo d (List.mem_reverse.mp hd)).trans_le hhi
  have hplaces := List.reverse_injective (map_digitChar_inj (hlt n) (hlt k) h)
  rw [← ofDigits_places base n, hplaces, ofDigits_places]

theorem isBase36Digit_of_mem_ofNat {base n : ℕ} (hlo : 2 ≤ base) (hhi : base ≤ 36) :
    ∀ c ∈ ofNat base n, isBase36Digit c = true := by
  intro c hc
  rw [ofNat_eq_places hlo] at hc
  obtain ⟨d, hd, rfl⟩ := List.mem_map.mp hc
  have hlt := places_lt hlo d (List.mem_reverse.mp hd)
  exact isBase36Digit_digitChar d (by omega)

/-! ## Decimal numerals -/

theorem isBase36Digit_of_mem_decimal {n : ℕ} : ∀ c ∈ decimal n, isBase36Digit c = true :=
  isBase36Digit_of_mem_ofNat (by decide) (by decide)

theorem not_mem_decimal {c : Char} (h : isBase36Digit c = false) (n : ℕ) : c ∉ decimal n := by
  intro hc
  rw [isBase36Digit_of_mem_decimal c hc] at h
  exact Bool.noConfusion h

theorem foldDigits_reverse (base : ℕ) (ds : List ℕ) :
    foldDigits base ds.reverse = Nat.ofDigits base ds := by
  rw [foldDigits, List.foldl_reverse, Nat.ofDigits_eq_foldr]
  simp only [Nat.cast_id, Nat.add_comm, Nat.mul_comm]

theorem isAsciiDigit_digitChar : ∀ d < 10, isAsciiDigit (digitChar d) = true := by
  decide

theorem toNat_digitChar : ∀ d < 10, (digitChar d).toNat - '0'.toNat = d := by
  decide

theorem isAsciiDigit_of_mem_decimal {n : ℕ} : ∀ c ∈ decimal n, isAsciiDigit c = true := by
  intro c hc
  rw [decimal, ofNat_eq_places (by decide)] at hc
  obtain ⟨d, hd, rfl⟩ := List.mem_map.mp hc
  exact isAsciiDigit_digitChar d (places_lt (by decide) d (List.mem_reverse.mp hd))

/-- The digits of a decimal numeral give its number. -/
theorem foldDigits_decimal (n : ℕ) :
    foldDigits 10 ((decimal n).map fun c => c.toNat - '0'.toNat) = n := by
  have hdigits : ((decimal n).map fun c => c.toNat - '0'.toNat) = (places 10 n).reverse := by
    rw [decimal, ofNat_eq_places (by decide), List.map_map]
    refine (List.map_congr_left fun d hd => ?_).trans (List.map_id _)
    exact toNat_digitChar d (places_lt (by decide) d (List.mem_reverse.mp hd))
  rw [hdigits, foldDigits_reverse, ofDigits_places]

/-! ## The end of a numeral -/

/-- The last `m` digits of a number in base 36. -/
def lastDigits (m n : ℕ) : Text :=
  ((Nat.digits 36 n).take m).reverse.map digitChar

theorem length_ofNat {n : ℕ} (hn : 0 < n) : (ofNat 36 n).length = (Nat.digits 36 n).length := by
  simp [ofNat_eq_places (show 2 ≤ 36 by omega), places_of_pos 36 hn]

theorem lt_length_ofNat {k n : ℕ} (h : 36 ^ k ≤ n) : k < (ofNat 36 n).length := by
  have hn : 0 < n := Nat.lt_of_lt_of_le (Nat.pow_pos (by omega)) h
  rw [length_ofNat hn]
  exact (Nat.lt_digits_length_iff (by omega) n).mpr h

theorem drop_ofNat {n : ℕ} (hn : 0 < n) (i : ℕ) :
    (ofNat 36 n).drop i = lastDigits ((ofNat 36 n).length - i) n := by
  rw [length_ofNat hn, ofNat_eq_places (by omega), places_of_pos 36 hn, lastDigits,
    ← List.map_drop, List.drop_reverse]

theorem lastDigits_inj {m n k : ℕ} (h : lastDigits m n = lastDigits m k) :
    n % 36 ^ m = k % 36 ^ m := by
  have hlt : ∀ i : ℕ, ∀ d ∈ ((Nat.digits 36 i).take m).reverse, d < 36 := by
    intro i d hd
    exact Nat.digits_lt_base (by omega) (List.mem_of_mem_take (List.mem_reverse.mp hd))
  have htake := List.reverse_injective (map_digitChar_inj (hlt n) (hlt k) h)
  rw [Nat.self_mod_pow_eq_ofDigits_take m n (by omega), htake,
    ← Nat.self_mod_pow_eq_ofDigits_take m k (by omega)]

/-- A long numeral ends in the `m` digits that write its remainder modulo `36 ^ m`. -/
theorem lastDigits_eq_of_mod {m n : ℕ} {ds : List ℕ} (hds : ∀ d ∈ ds, d < 36)
    (hlength : ds.length = m) (hn : 36 ^ m ≤ n) (hmod : n % 36 ^ m = Nat.ofDigits 36 ds) :
    lastDigits m n = ds.reverse.map digitChar := by
  have hlong : m < (Nat.digits 36 n).length :=
    (Nat.lt_digits_length_iff (by omega) n).mpr hn
  have htake : (Nat.digits 36 n).take m = ds := by
    apply Nat.ofDigits_inj_of_len_eq (b := 36) (by omega)
    · simp only [List.length_take, hlength]
      omega
    · intro d hd
      exact Nat.digits_lt_base (by omega) (List.mem_of_mem_take hd)
    · exact hds
    · rw [← Nat.self_mod_pow_eq_ofDigits_take m n (by omega), hmod]
  rw [lastDigits, htake]

theorem lastDigits_eq_of_mod_eq {m n k : ℕ} (hn : 36 ^ m ≤ n) (hk : 36 ^ m ≤ k)
    (hmod : n % 36 ^ m = k % 36 ^ m) : lastDigits m n = lastDigits m k := by
  have hlong : m < (Nat.digits 36 k).length :=
    (Nat.lt_digits_length_iff (by omega) k).mpr hk
  change lastDigits m n = ((Nat.digits 36 k).take m).reverse.map digitChar
  apply lastDigits_eq_of_mod _ _ hn
  · rw [hmod, Nat.self_mod_pow_eq_ofDigits_take m k (by omega)]
  · intro d hd
    exact Nat.digits_lt_base (by omega) (List.mem_of_mem_take hd)
  · simp only [List.length_take]
    omega

end MarkupIds.Text
