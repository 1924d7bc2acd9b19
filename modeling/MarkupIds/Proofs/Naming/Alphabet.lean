import MarkupIds.Proofs.Naming.Ladder
import MarkupIds.Proofs.Text.Basic

/-!
# The alphabet of identifiers

Proposals are cleaned whatever they are made from, and every rung of the conflict ladder keeps to
their alphabet.
-/

namespace MarkupIds.Naming

/-- A text over the alphabet of identifiers. -/
def IsIdText (t : Text) : Prop :=
  ∀ c ∈ t, isIdChar c = true

theorem IsIdText.sublist {s t : Text} (ht : IsIdText t) (h : s.Sublist t) : IsIdText s :=
  fun c hc => ht c (h.mem hc)

theorem isIdText_append {s t : Text} : IsIdText (s ++ t) ↔ IsIdText s ∧ IsIdText t := by
  simp [IsIdText, or_imp, forall_and]

theorem isIdText_cons {c : Char} {t : Text} :
    IsIdText (c :: t) ↔ isIdChar c = true ∧ IsIdText t := by
  simp [IsIdText]

/-! ## Proposals -/

theorem scrub_isIdText (t : Text) : IsIdText (scrub t) := by
  have hmarked : IsIdText ((Text.lower t).map fun c => if isIdChar c then c else '-') := by
    intro c hc
    obtain ⟨d, _, rfl⟩ := List.mem_map.mp hc
    split
    · assumption
    · decide
  refine hmarked.sublist ((Text.trimWhile_sublist _ _).trans ?_)
  refine (Text.squeeze_sublist _ _).trans ?_
  exact (Text.squeeze_sublist _ _).trans (List.dropWhile_sublist _)

theorem fit_sublist (limit : Limit) (t : Text) : (fit limit t).Sublist t := by
  unfold fit
  split
  · split
    · exact ((Text.dropTailWhile_isPrefix _ _).trans (Text.takeSigned_isPrefix _ t)).sublist
    · exact .refl t
  · exact .refl t

theorem clean_isIdText (limit : Limit) (t : Text) : IsIdText (clean limit t) := by
  unfold clean
  split
  · exact List.all_eq_true.mp (by decide)
  · rename_i h
    exact (scrub_isIdText t).sublist (fit_sublist limit _)

theorem clean_ne_nil (limit : Limit) (t : Text) : clean limit t ≠ [] := by
  unfold clean
  split
  · decide
  · rename_i h
    exact h

/-- Whatever words, rules and transforms are asked, the proposal is a text cleaned to the bound of
the scope. -/
theorem exists_clean_of_propose {rules : List Rule} {scope : Scope} {e : Element} {id : Text}
    (h : propose rules scope e = .ok id) : ∃ t, id = clean (boundOf scope) t := by
  unfold propose proposeNoting at h
  split at h
  · rename_i answer _ _
    exact ⟨answer, (Except.ok.inj h).symm⟩
  · simp only [assemble, bind, Except.bind] at h
    split at h
    · simp at h
    · split at h
      · exact ⟨_, (Except.ok.inj h).symm⟩
      · exact ⟨_, (Except.ok.inj h).symm⟩

theorem propose_eq_clean {rules : List Rule} {scope : Scope} {e : Element} {id : Text}
    (h : propose rules scope e = .ok id) : ∃ limit t, id = clean limit t :=
  ⟨boundOf scope, exists_clean_of_propose h⟩

theorem propose_nil (scope : Scope) (e : Element) :
    propose [] scope e = assemble scope (defaultEntries scope e) := by
  simp [propose, proposeNoting, Rule.matching, Rule.firstAnswer]

/-! ## Rungs -/

theorem isIdChar_of_isBase36Digit {c : Char} (h : Text.isBase36Digit c = true) :
    isIdChar c = true := by
  simp only [Text.isBase36Digit, Bool.or_eq_true] at h
  simp only [isIdChar, Bool.or_eq_true]
  tauto

theorem ofNat_isIdText {base : ℕ} (hlo : 2 ≤ base) (hhi : base ≤ 36) (n : ℕ) :
    IsIdText (Text.ofNat base n) :=
  fun c hc => isIdChar_of_isBase36Digit (Text.isBase36Digit_of_mem_ofNat hlo hhi c hc)

theorem withSuffix_isIdText {limit : Limit} {base suffix : Text} (hbase : IsIdText base)
    (hsuffix : IsIdText suffix) : IsIdText (withSuffix limit base suffix) := by
  have hjoin : ∀ front : Text, IsIdText front → IsIdText (front ++ '-' :: suffix) := by
    intro front hfront
    exact isIdText_append.mpr ⟨hfront, isIdText_cons.mpr ⟨by decide, hsuffix⟩⟩
  unfold withSuffix
  dsimp only
  split
  · exact hjoin base hbase
  · split
    · exact hjoin base hbase
    · split
      · split <;> exact hsuffix.sublist (List.drop_sublist _ _)
      · apply hjoin
        exact hbase.sublist ((Text.dropTailWhile_isPrefix _ _).trans (List.take_prefix _ _)).sublist

theorem ladder_isIdText {candidate : Text} (h : IsIdText candidate) (clock : ℕ) (limit : Limit)
    (n : ℕ) : IsIdText (ladder clock limit candidate n) := by
  cases n with
  | zero => exact h
  | succ n =>
      rw [ladder]
      split
      · apply withSuffix_isIdText _ (ofNat_isIdText (by omega) (by omega) _)
        unfold numberedBase
        split
        · exact h.sublist ((Text.dropTailWhile_isPrefix _ _).trans (List.take_prefix _ _)).sublist
        · exact h
      · exact withSuffix_isIdText h (ofNat_isIdText (by omega) (by omega) _)

theorem settle_isIdText {clock : ℕ} {limit : Limit} {taken : List Text} {candidate id : Text}
    (h : settle clock limit taken candidate = .ok id) (hcandidate : IsIdText candidate) :
    IsIdText id := by
  obtain ⟨n, rfl, _⟩ := resolve_eq_some_iff.mp (settle_eq_ok_iff.mp h)
  exact ladder_isIdText hcandidate clock limit n

/-- What is settled on for a proposal. -/
theorem settled_isIdText {clock : ℕ} {limit : Limit} {taken : List Text} {rules : List Rule}
    {scope : Scope} {e : Element} {base id : Text} (hbase : propose rules scope e = .ok base)
    (hid : settle clock limit taken base = .ok id) : IsIdText id := by
  obtain ⟨bound, text, rfl⟩ := propose_eq_clean hbase
  exact settle_isIdText hid (clean_isIdText bound text)

/-! ## Empty identifiers -/

/-- Only a negative bound can cut a suffix form down to nothing. -/
theorem withSuffix_ne_nil {limit : Limit} (hlimit : ∀ m, limit = some m → 0 ≤ m)
    {suffix : Text} (hsuffix : suffix ≠ []) (base : Text) : withSuffix limit base suffix ≠ [] := by
  unfold withSuffix
  dsimp only
  split
  · simp
  · rename_i m hbound
    obtain ⟨rfl, hm⟩ := Option.filter_eq_some_iff.mp hbound
    have hpos : 0 < m := lt_of_le_of_ne (hlimit m rfl) (Ne.symm (by simpa using hm))
    split
    · simp
    · split
      · have hlength := List.length_pos_iff.mpr hsuffix
        simp only [ne_eq, List.drop_eq_nil_iff, not_le]
        omega
      · simp

theorem ladder_ne_nil {limit : Limit} (hlimit : ∀ m, limit = some m → 0 ≤ m) {candidate : Text}
    (h : candidate ≠ []) (clock n : ℕ) : ladder clock limit candidate n ≠ [] := by
  cases n with
  | zero => exact h
  | succ n =>
      rw [ladder]
      split <;> exact withSuffix_ne_nil hlimit (Text.ofNat_ne_nil (by omega) _) _

theorem settle_ne_nil {clock : ℕ} {limit : Limit} (hlimit : ∀ m, limit = some m → 0 ≤ m)
    {taken : List Text} {candidate id : Text} (h : settle clock limit taken candidate = .ok id)
    (hcandidate : candidate ≠ []) : id ≠ [] := by
  obtain ⟨n, rfl, _⟩ := resolve_eq_some_iff.mp (settle_eq_ok_iff.mp h)
  exact ladder_ne_nil hlimit hcandidate clock n

end MarkupIds.Naming
