import MarkupIds.Proofs.Naming.Shape
import MarkupIds.Proofs.Plan.Account

/-!
# Plans and generated identifiers

Planning an element without an identifier proposes and settles one as generating it does. The two
part only where the bound is zero: a plan then settles without a bound, and generating settles
under the default bound. They agree nevertheless until a rung of the ladder is too long for it.
-/

namespace MarkupIds

namespace Naming

/-! ## Rungs under a bound and without one -/

/-- What stands in front of the hyphen of a rung. -/
def rungBase (candidate : Text) (n : ℕ) : Text :=
  if n ≤ 100 then numberedBase candidate n else candidate

/-- What stands behind the hyphen of a rung. -/
def rungSuffix (clock n : ℕ) : Text :=
  if n ≤ 100 then Text.decimal n else Text.ofNat 36 (clock + (n - 101))

theorem ladder_eq_withSuffix (clock : ℕ) (limit : Limit) (candidate : Text) {n : ℕ} (hn : 0 < n) :
    ladder clock limit candidate n =
      withSuffix limit (rungBase candidate n) (rungSuffix clock n) := by
  obtain ⟨k, rfl⟩ := Nat.exists_eq_add_of_le' hn
  rw [ladder, rungBase, rungSuffix]
  by_cases hk : k < 100
  · rw [if_pos hk, if_pos (by omega), if_pos (by omega)]
    rfl
  · rw [if_neg hk, if_neg (by omega), if_neg (by omega)]
    rfl

theorem hyphen_not_mem_rungSuffix (clock n : ℕ) : '-' ∉ rungSuffix clock n := by
  intro hhyphen
  unfold rungSuffix at hhyphen
  split at hhyphen
  · exact absurd (Text.isBase36Digit_of_mem_ofNat (by omega) (by omega) _ hhyphen) (by decide)
  · exact absurd (Text.isBase36Digit_of_mem_ofNat (by omega) (by omega) _ hhyphen) (by decide)

/-- The last hyphen divides a text in one way. -/
theorem eq_of_last_hyphen {a b s r : Text} (hs : '-' ∉ s) (hr : '-' ∉ r)
    (h : a ++ '-' :: s = b ++ '-' :: r) : a = b ∧ s = r := by
  rcases List.append_eq_append_iff.mp h with ⟨k, rfl, htail⟩ | ⟨k, rfl, htail⟩
  · cases k with
    | nil => exact ⟨(List.append_nil a).symm, (List.cons.inj htail).2⟩
    | cons c k => exact absurd ((List.cons.inj htail).2 ▸ by simp) hs
  · cases k with
    | nil => exact ⟨List.append_nil b, ((List.cons.inj htail).2).symm⟩
    | cons c k => exact absurd ((List.cons.inj htail).2 ▸ by simp) hr

theorem withSuffix_of_length_le {m : ℤ} (hm : 0 < m) {base suffix : Text}
    (h : ((base ++ '-' :: suffix).length : ℤ) ≤ m) :
    withSuffix (some m) base suffix = base ++ '-' :: suffix := by
  simp only [withSuffix, bound?_some (show m ≠ 0 by omega), if_pos h]

/-- A form that is too long for the bound gives up a part of its base, or its hyphen. -/
theorem exists_cut_of_withSuffix {m : ℤ} (hm : 0 < m) {base suffix : Text}
    (hsuffix : '-' ∉ suffix) (hlong : m < (base ++ '-' :: suffix).length)
    (hhyphen : '-' ∈ withSuffix (some m) base suffix) :
    ∃ front : Text, front.length < base.length ∧
      withSuffix (some m) base suffix = front ++ '-' :: suffix := by
  simp only [withSuffix, bound?_some (show m ≠ 0 by omega), if_neg (not_le.mpr hlong)]
    at hhyphen ⊢
  split at hhyphen
  · rw [if_pos hm] at hhyphen
    exact absurd (List.mem_of_mem_drop hhyphen) hsuffix
  · rename_i htrimmed
    refine ⟨_, ?_, rfl⟩
    have htake := (Text.dropTailWhile_isPrefix isSeparator
      (base.take (m - suffix.length - 1).toNat)).length_le
    have hpos := List.length_pos_iff.mpr htrimmed
    rw [List.length_take] at htake
    simp only [List.length_append, List.length_cons] at hlong
    omega

section Bounds

variable {clock : ℕ} {limit : Limit} {candidate : Text} {m : ℤ} {n k : ℕ}

/-- A rung that keeps to the bound is the same with and without it. -/
theorem ladder_of_length_le (hlimit : limit.bound? = none) (hm : 0 < m)
    (h : ((ladder clock limit candidate n).length : ℤ) ≤ m) :
    ladder clock (some m) candidate n = ladder clock limit candidate n := by
  cases Nat.eq_zero_or_pos n with
  | inl hzero => rw [hzero, ladder_zero, ladder_zero]
  | inr hpos =>
      rw [ladder_eq_withSuffix _ limit _ hpos, withSuffix_of_unbounded hlimit] at h ⊢
      rw [ladder_eq_withSuffix _ _ _ hpos, withSuffix_of_length_le hm h]

/-- A rung is never cut down to a later rung of the ladder without a bound. -/
theorem ladder_ne_later (hlimit : limit.bound? = none) (hm : 0 < m) (hkn : k < n)
    (hcut : ladder clock (some m) candidate k ≠ ladder clock limit candidate k) :
    ladder clock (some m) candidate k ≠ ladder clock limit candidate n := by
  intro hsame
  have hk : 0 < k := by
    apply Nat.pos_of_ne_zero
    rintro rfl
    exact hcut rfl
  have hlong : m < (ladder clock limit candidate k).length := by
    by_contra hshort
    exact hcut (ladder_of_length_le hlimit hm (not_lt.mp hshort))
  rw [ladder_eq_withSuffix _ limit _ (hk.trans hkn), ladder_eq_withSuffix _ _ _ hk,
    withSuffix_of_unbounded hlimit] at hsame
  rw [ladder_eq_withSuffix _ _ _ hk, withSuffix_of_unbounded hlimit] at hlong
  obtain ⟨front, hfront, hform⟩ := exists_cut_of_withSuffix hm (hyphen_not_mem_rungSuffix clock k)
    hlong (by rw [hsame]; simp)
  obtain ⟨hbase, hsuffix⟩ := eq_of_last_hyphen (hyphen_not_mem_rungSuffix clock k)
    (hyphen_not_mem_rungSuffix clock n) (hform.symm.trans hsame)
  -- The later base is the shorter one, so both rungs are numbered, and by the same number.
  rw [hbase] at hfront
  have hnumbered : n ≤ 100 := by
    by_contra hstamped
    rw [rungBase, if_neg hstamped] at hfront
    have hle : (rungBase candidate k).length ≤ candidate.length := by
      unfold rungBase numberedBase
      split
      · split
        · exact ((Text.dropTailWhile_isPrefix _ _).trans (List.take_prefix _ _)).length_le
        · exact le_rfl
      · exact le_rfl
    omega
  rw [rungSuffix, rungSuffix, if_pos (by omega), if_pos hnumbered] at hsuffix
  exact hkn.ne (Text.ofNat_injective (by omega) (by omega) hsuffix)

/-- Settling under a bound gives what settling without one gives, exactly if that keeps to the
bound and all rungs in front of it, cut to the bound, are taken. -/
theorem settle_bounded_iff (hlimit : limit.bound? = none) (hm : 7 ≤ m) {taken : List Text}
    (hcandidate : (candidate.length : ℤ) ≤ m)
    (hfirst : IsFirstFree taken (ladder clock limit candidate) n) :
    settle clock (some m) taken candidate = .ok (ladder clock limit candidate n) ↔
      ((ladder clock limit candidate n).length : ℤ) ≤ m ∧
        ∀ k < n, ladder clock (some m) candidate k ∈ taken := by
  have hpos : 0 < m := by omega
  rw [settle_eq_ok_iff, resolve_eq_some_iff]
  constructor
  · rintro ⟨j, hsame, hfree, hbefore⟩
    have hlength := length_ladder_le hpos (hcandidate.trans (le_max_left m 7)) clock j
    rw [hsame, max_eq_left hm] at hlength
    refine ⟨hlength, fun k hk => hbefore k (hk.trans_le ?_)⟩
    by_contra hjn
    refine ladder_ne_later hlimit hpos (not_le.mp hjn) ?_ hsame
    intro huncut
    exact hfree (huncut ▸ hfirst.2 j (not_le.mp hjn))
  · rintro ⟨hlength, hbefore⟩
    have hrung := ladder_of_length_le hlimit hpos hlength
    exact ⟨n, hrung, hrung ▸ hfirst.1, hbefore⟩

end Bounds

theorem generate_eq_settle (clock : ℕ) {rules : List Rule} {scope : Scope} {e : Element}
    {base : Text} (h : propose rules scope e = .ok base) :
    generate clock rules scope e = settle clock (boundOf scope) scope.taken base := by
  rw [generate, h]
  rfl

end Naming

namespace Plan

open Naming

theorem others_of_filled?_eq_none {config : Config} {e : Element}
    (h : Attributes.filled? e.attributes config.attributeName = none) (taken : List Text) :
    others config taken e = taken := by
  unfold others
  split
  · rename_i c cs hattribute
    rw [Element.attribute?] at hattribute
    simp [Attributes.filled?, hattribute] at h
  · rfl

/-- At an element that is eligible, has a place and carries no identifier, a plan is extended by
the identifier that is generated in the scope reached so far. A bound of zero is the exception:
the plan takes the first free rung of the ladder without a bound, which is the generated identifier
exactly if it has at most fifty characters and no rung in front of it is free when cut to fifty. -/
theorem ofElements_names_as_generate (clock : ℕ) (config : Config) (path : Text)
    (component : Option Text) (framework : Option Framework) (taken : List Text)
    (front back : List Element) (e : Element) (plan : Plan)
    (heligible : eligible config e = .ok true) (hplace : e.position.isSome = true)
    (hbare : Attributes.filled? e.attributes config.attributeName = none)
    (hplan : ofElements (Namer.standard clock) config
      (config.scope path component framework taken) (front ++ e :: back) = .ok plan) :
    ∃ before award,
      ofElements (Namer.standard clock) config (config.scope path component framework taken)
        front = .ok before ∧
      award.element = e ∧ e.position = some award.place ∧
      propose config.rules (config.scope path component framework before.taken) e =
        .ok award.base ∧
      back.foldlM (step (Namer.standard clock) config
        (config.scope path component framework taken))
        ((Event.awarded award).replay config before) = .ok plan ∧
      let generated := generate clock config.rules
        (config.scope path component framework before.taken) e
      (config.limit ≠ 0 → generated = .ok award.value) ∧
      (config.limit = 0 → ∃ n, award.value = ladder clock (some 0) award.base n ∧
        IsFirstFree before.taken (ladder clock (some 0) award.base) n ∧
        (generated = .ok award.value ↔
          award.value.length ≤ 50 ∧
            ∀ k < n, ladder clock (some 50) award.base k ∈ before.taken)) := by
  obtain ⟨place, hplace⟩ := Option.isSome_iff_exists.mp hplace
  rw [ofElements, List.foldlM_append, bind_eq_ok_iff] at hplan
  obtain ⟨before, hbefore, hrest⟩ := hplan
  rw [List.foldlM_cons, bind_eq_ok_iff] at hrest
  obtain ⟨after, hstep, hrest⟩ := hrest
  rw [step_eligible heligible, hplace] at hstep
  obtain ⟨base, value, hbase, hvalue, rfl⟩ := name_eq_ok_iff.mp hstep
  rw [others_of_filled?_eq_none hbare] at hvalue
  replace hbase : propose config.rules (config.scope path component framework before.taken) e =
      .ok base := hbase
  have hgenerate := generate_eq_settle clock hbase
  refine ⟨before, ⟨e, place, base, value⟩, hbefore, rfl, hplace, hbase, hrest, ?_, ?_⟩
  · intro hlimit
    have hbound : boundOf (config.scope path component framework before.taken) =
        some config.limit := by
      rw [boundOf, Config.scope, bound?_some hlimit]
      rfl
    rw [hgenerate, hbound]
    exact hvalue
  · intro hlimit
    have hbound : boundOf (config.scope path component framework before.taken) = some 50 := by
      rw [boundOf, Config.scope, hlimit]
      rfl
    replace hvalue : settle clock (some 0) before.taken base = .ok value := hlimit ▸ hvalue
    obtain ⟨n, rfl, hfirst⟩ := resolve_eq_some_iff.mp (settle_eq_ok_iff.mp hvalue)
    have hlength : (base.length : ℤ) ≤ 50 := by
      obtain ⟨t, rfl⟩ := exists_clean_of_propose hbase
      rw [hbound]
      exact length_clean_le (by decide) t
    refine ⟨n, rfl, hfirst, ?_⟩
    rw [hgenerate, hbound]
    refine (settle_bounded_iff rfl (by decide) hlength hfirst).trans ?_
    rw [Nat.cast_le_ofNat]

/-! ## Two buttons -/

def buttonOn (line : ℤ) : Element :=
  { tag := "button".toList, position := some ⟨line, 1, 0⟩ }

/-- Two buttons that ask for one identifier. -/
theorem ofElements_twoButtons (config : Config) (scope : Scope) (base value : Text)
    (heligible : ∀ line, eligible config (buttonOn line) = .ok true)
    (hfirst : propose config.rules scope (buttonOn 1) = .ok base) (hfree : base ∉ scope.taken)
    (hsecond : propose config.rules { scope with taken := scope.taken.insert base }
      (buttonOn 2) = .ok base)
    (hvalue : settle 0 scope.limit (scope.taken.insert base) base = .ok value) :
    ofElements (Namer.standard 0) config scope [buttonOn 1, buttonOn 2] =
      .ok ([⟨buttonOn 1, ⟨1, 1, 0⟩, base, base⟩, ⟨buttonOn 2, ⟨2, 1, 0⟩, base, value⟩].foldl
        (fun p a => (Event.awarded a).replay config p) { taken := scope.taken }) := by
  refine ofElements_eq_ok_iff.mpr ⟨_, .awarded (heligible 1) rfl hfirst ?_
    (.awarded (heligible 2) rfl hsecond hvalue (.nil _)), rfl⟩
  exact settle_of_not_mem 0 scope.limit hfree

/-- The second button gets the number that is generated for it, and the base gives way to it. -/
theorem ofElements_names_as_generate_second :
    let config : Config := { limit := 9 }
    let scope := config.scope "A.jsx".toList none none
    ∃ plan, ofElements (Namer.standard 0) config (scope []) [buttonOn 1, buttonOn 2] = .ok plan ∧
      plan.edits.map (·.value) = ["test-btn".toList, "test-bt-1".toList] ∧
      generate 0 config.rules (scope ["test-btn".toList]) (buttonOn 2) =
        .ok "test-bt-1".toList := by
  intro config scope
  have hplan := ofElements_twoButtons config (scope []) "test-btn".toList "test-bt-1".toList
    (by intro line; rfl)
    ((propose_nil _ _).trans (by decide)) (by simp [scope, Config.scope])
    ((propose_nil _ _).trans (by decide)) (by rw [settle_eq_ok_iff]; decide +kernel)
  obtain ⟨before, award, hbefore, _, _, _, hrest, hgenerate, _⟩ :=
    ofElements_names_as_generate 0 config "A.jsx".toList none none [] [buttonOn 1] [] (buttonOn 2)
      _ (by decide) rfl rfl hplan
  have hsettle : settle 0 (some 9) [] "test-btn".toList = .ok "test-btn".toList :=
    settle_of_not_mem 0 _ (by simp)
  have heligible : eligible config (buttonOn 1) = .ok true := by decide
  have hfirst := ofElements_singleton (Namer.standard 0) (scope []) heligible rfl
    ((propose_nil _ _).trans (by decide)) hsettle
  obtain rfl := Except.ok.inj (hfirst.symm.trans hbefore)
  have hedits := congrArg Plan.edits (Except.ok.inj hrest)
  obtain ⟨_, _, hvalue, _⟩ :=
    Award.edit?_eq_some (Option.toList_eq_singleton_iff.mp (List.append_cancel_left hedits))
  refine ⟨_, hplan, by decide, (hgenerate (by decide)).trans (congrArg Except.ok ?_)⟩
  exact hvalue.symm

/-- With a bound of zero the number is added to the whole of an identifier of fifty characters;
generated, the identifier is cut for the number. -/
theorem plan_exceeds_default_bound :
    let word (n : ℕ) : Text := List.replicate n 'a'
    let config : Config := { limit := 0, lead := some (word 50) }
    let scope := config.scope "A.jsx".toList none none
    ∃ plan, ofElements (Namer.standard 0) config (scope []) [buttonOn 1, buttonOn 2] = .ok plan ∧
      plan.edits.map (·.value) = [word 50, word 50 ++ "-1".toList] ∧
      generate 0 config.rules (scope [word 50]) (buttonOn 2) = .ok (word 48 ++ "-1".toList) := by
  intro word config scope
  have hplan := ofElements_twoButtons config (scope []) (word 50) (word 50 ++ "-1".toList)
    (by intro line; rfl)
    ((propose_nil _ _).trans (by decide)) (by simp [scope, Config.scope])
    ((propose_nil _ _).trans (by decide)) (by rw [settle_eq_ok_iff]; decide +kernel)
  have hbase : propose config.rules (scope [word 50]) (buttonOn 2) = .ok (word 50) :=
    (propose_nil _ _).trans (by decide)
  refine ⟨_, hplan, by decide, ?_⟩
  rw [generate_eq_settle 0 hbase, settle_eq_ok_iff]
  decide +kernel

end Plan

end MarkupIds
