import MarkupIds.Proofs.Lists
import MarkupIds.Proofs.Plan.Generation

/-!
# Alternative identifiers

The alternatives for an element are settled one by one against the identifiers that are taken, and
none of them is reserved for the others. They start from different bases, so two of them are the
same only where a conflict was resolved: one base is what the other was numbered to, or one of two
bases gave up a part to make room for a number.
-/

namespace MarkupIds.Naming

/-- The base by the words of an element's content, if it has any. -/
def contentBase (scope : Scope) (e : Element) : Except Failure (List Text) :=
  match e.text? with
  | some content => (assemble scope (contentKeywords content ++ [elementType e])).map ([·])
  | none => .ok []

/-- The base by the words of an element's attributes, if it has any. -/
def attributeBase (scope : Scope) (e : Element) : Except Failure (List Text) :=
  match attributeKeywords e meaningfulAttributes with
  | [] => .ok []
  | words => (assemble scope (words.take 2 ++ [elementType e])).map ([·])

/-- The bases that the alternatives for an element start from, each once. -/
def bases (rules : List Rule) (scope : Scope) (e : Element) : Except Failure (List Text) := do
  let full ← propose rules scope e
  let fromContent ← contentBase scope e
  let fromAttributes ← attributeBase scope e
  return Text.dedup (full :: fromContent ++ fromAttributes)

theorem candidates_eq (clock : ℕ) (rules : List Rule) (scope : Scope) (e : Element) (count : ℤ) :
    candidates clock rules scope e count = do
      let free ← (← bases rules scope e).mapM (settle clock (boundOf scope) scope.taken)
      return Text.takeSigned count free := by
  simp only [bases, contentBase, attributeBase, bind_assoc, pure_bind]
  unfold candidates
  cases e.text? with
  | none => cases attributeKeywords e meaningfulAttributes <;> rfl
  | some content => cases attributeKeywords e meaningfulAttributes <;> rfl

/-- There is one base by the rules or the description, and at most one by content and one by
attributes. -/
theorem exists_of_bases {rules : List Rule} {scope : Scope} {e : Element} {all : List Text}
    (h : bases rules scope e = .ok all) :
    all.Nodup ∧ all.length ≤ 3 ∧ ∃ base rest, all = base :: rest ∧
      propose rules scope e = .ok base := by
  have hone : ∀ {joined : Except Failure Text} {found : List Text},
      joined.map ([·]) = .ok found → found.length ≤ 1 := by
    rintro (failure | base) found hfound
    · exact nomatch hfound
    · obtain rfl := Except.ok.inj hfound
      exact le_rfl
  obtain ⟨full, hfull, h⟩ := bind_eq_ok_iff.mp h
  obtain ⟨fromContent, hcontent, h⟩ := bind_eq_ok_iff.mp h
  obtain ⟨fromAttributes, hattributes, h⟩ := bind_eq_ok_iff.mp h
  obtain rfl := Except.ok.inj h
  have hcontent : fromContent.length ≤ 1 := by
    unfold contentBase at hcontent
    split at hcontent
    · exact hone hcontent
    · obtain rfl := Except.ok.inj hcontent
      exact Nat.zero_le 1
  have hattributes : fromAttributes.length ≤ 1 := by
    unfold attributeBase at hattributes
    split at hattributes
    · obtain rfl := Except.ok.inj hattributes
      exact Nat.zero_le 1
    · exact hone hattributes
  refine ⟨nodup_eraseDups _, (length_eraseDups_le _).trans ?_, full, _, List.eraseDups_cons, hfull⟩
  simp only [List.length_cons, List.length_append]
  omega

/-! ## Two bases and one identifier -/

/-- The identifier is a numbered or stamped form of the base in which the base is not whole. -/
def Shortened (clock : ℕ) (limit : Limit) (base id : Text) : Prop :=
  ∃ n, 0 < n ∧ ladder clock limit base n = id ∧ id ≠ base ++ '-' :: rungSuffix clock n

/-- How different bases lead to one identifier: one base is free and is what the other one is
resolved to, or both are taken and one of them is shortened. -/
def Coincide (clock : ℕ) (limit : Limit) (taken : List Text) (a b id : Text) : Prop :=
  (a ∈ taken ∧ b = id) ∨ (b ∈ taken ∧ a = id) ∨
    (a ∈ taken ∧ b ∈ taken ∧ (Shortened clock limit a id ∨ Shortened clock limit b id))

theorem coincide_of_settle {clock : ℕ} {limit : Limit} {taken : List Text} {a b id : Text}
    (hne : a ≠ b) (ha : settle clock limit taken a = .ok id)
    (hb : settle clock limit taken b = .ok id) : Coincide clock limit taken a b id := by
  obtain ⟨n, hn, -, hbefore⟩ := resolve_eq_some_iff.mp (settle_eq_ok_iff.mp ha)
  obtain ⟨k, hk, -, hearlier⟩ := resolve_eq_some_iff.mp (settle_eq_ok_iff.mp hb)
  have htaken : ∀ {base : Text} {m : ℕ}, 0 < m →
      (∀ i < m, ladder clock limit base i ∈ taken) → base ∈ taken := fun hpos h => h 0 hpos
  rcases Nat.eq_zero_or_pos n with rfl | hnpos
  · rcases Nat.eq_zero_or_pos k with rfl | hkpos
    · exact absurd (hn.trans hk.symm) hne
    · exact .inr (.inl ⟨htaken hkpos hearlier, hn⟩)
  · rcases Nat.eq_zero_or_pos k with rfl | hkpos
    · exact .inl ⟨htaken hnpos hbefore, hk⟩
    · refine .inr (.inr ⟨htaken hnpos hbefore, htaken hkpos hearlier, ?_⟩)
      -- Whole bases can be told from the identifier: they end at its last hyphen.
      by_contra hwhole
      rw [not_or] at hwhole
      have hforma : id = a ++ '-' :: rungSuffix clock n := by
        by_contra hcut
        exact hwhole.1 ⟨n, hnpos, hn, hcut⟩
      have hformb : id = b ++ '-' :: rungSuffix clock k := by
        by_contra hcut
        exact hwhole.2 ⟨k, hkpos, hk, hcut⟩
      exact hne (eq_of_last_hyphen (hyphen_not_mem_rungSuffix clock n)
        (hyphen_not_mem_rungSuffix clock k) (hforma.symm.trans hformb)).1

/-- The alternatives for an element: at most three and as many as asked for, all free, the first of
them the generated identifier. Each is settled from a base of its own. Two of them are the same only
if they coincide by way of a base that is taken, so with free bases they all differ. -/
theorem candidates_usable (clock : ℕ) (rules : List Rule) (scope : Scope) (e : Element) (count : ℕ)
    (entries : List Text) (h : candidates clock rules scope e count = .ok entries) :
    entries.length ≤ min count 3 ∧
    (∀ id ∈ entries, id ∉ scope.taken) ∧
    (0 < count → ∃ id, entries.head? = some id ∧ generate clock rules scope e = .ok id) ∧
    ∃ all, bases rules scope e = .ok all ∧ all.Nodup ∧
      List.Forall₂ (fun base id => settle clock (boundOf scope) scope.taken base = .ok id)
        (all.take count) entries ∧
      ((all.take count).zip entries).Pairwise (fun x y => x.2 = y.2 →
        Coincide clock (boundOf scope) scope.taken x.1 y.1 x.2) ∧
      ((∀ base ∈ all, base ∉ scope.taken) → entries.Nodup) := by
  rw [candidates_eq] at h
  obtain ⟨all, hall, h⟩ := bind_eq_ok_iff.mp h
  obtain ⟨free, hfree, h⟩ := bind_eq_ok_iff.mp h
  obtain ⟨hnodup, hlength, base, rest, hfirst, hpropose⟩ := exists_of_bases hall
  have hentries : entries = free.take count := by
    obtain rfl := Except.ok.inj h
    rw [Text.takeSigned, if_pos (Int.natCast_nonneg count), Int.toNat_natCast]
  have hsettled := List.forall₂_take count (mapM_eq_ok_iff.mp hfree)
  rw [← hentries] at hsettled
  have hfirsts : ((all.take count).zip entries).map Prod.fst = all.take count :=
    List.map_fst_zip hsettled.length_eq.le
  have hseconds : ((all.take count).zip entries).map Prod.snd = entries :=
    List.map_snd_zip hsettled.length_eq.ge
  have hpairs : ∀ x ∈ (all.take count).zip entries,
      settle clock (boundOf scope) scope.taken x.1 = .ok x.2 :=
    fun x hx => (List.forall₂_iff_zip.mp hsettled).2 hx
  have hcoincide : ((all.take count).zip entries).Pairwise (fun x y => x.2 = y.2 →
      Coincide clock (boundOf scope) scope.taken x.1 y.1 x.2) := by
    have hdistinct : ((all.take count).zip entries).Pairwise (fun x y => x.1 ≠ y.1) := by
      rw [← List.pairwise_map, hfirsts]
      exact hnodup.sublist (List.take_sublist count all)
    refine hdistinct.imp_of_mem ?_
    intro x y hx hy hne hsame
    exact coincide_of_settle hne (hpairs x hx) (hsame ▸ hpairs y hy)
  refine ⟨?_, ?_, ?_, all, hall, hnodup, hsettled, hcoincide, ?_⟩
  · rw [← hsettled.length_eq, List.length_take]
    exact min_le_min_left count hlength
  · rw [← hseconds, List.forall_mem_map]
    exact fun x hx => settle_not_mem (hpairs x hx)
  · intro hcount
    obtain ⟨count, rfl⟩ := Nat.exists_eq_add_of_le' hcount
    rw [hfirst, List.take_succ_cons] at hsettled
    obtain ⟨id, more, hid, -, rfl⟩ := List.forall₂_cons_left_iff.mp hsettled
    exact ⟨id, rfl, (generate_eq_settle clock hpropose).trans hid⟩
  · intro hbases
    have hmem : ∀ x ∈ (all.take count).zip entries, x.1 ∉ scope.taken :=
      fun x hx => hbases x.1 (List.mem_of_mem_take (List.of_mem_zip hx).1)
    rw [← hseconds, List.Nodup, List.pairwise_map]
    refine hcoincide.imp_of_mem ?_
    rintro x y hx hy hways hsame
    rcases hways hsame with ⟨htaken, -⟩ | ⟨htaken, -⟩ | ⟨htaken, -⟩
    · exact hmem x hx htaken
    · exact hmem y hy htaken
    · exact hmem x hx htaken

/-- An input with a name and a text has three alternatives, and their bases are free. -/
theorem candidates_usable_field :
    let scope : Scope := { lead := some "test".toList, component := some "LoginForm".toList }
    let e : Element :=
      { tag := "input".toList
        attributes := [("name".toList, "email".toList)]
        content := some "Email address".toList }
    ∃ entries, candidates 0 [] scope e (3 : ℕ) = .ok entries ∧
      entries = ["test-login-form-email-address-input".toList,
        "test-email-address-input".toList, "test-email-input".toList] ∧
      entries.Nodup ∧ generate 0 [] scope e = .ok "test-login-form-email-address-input".toList := by
  intro scope e
  have hcandidates : candidates 0 [] scope e (3 : ℕ) =
      .ok ["test-login-form-email-address-input".toList,
        "test-email-address-input".toList, "test-email-input".toList] := by
    decide +kernel
  obtain ⟨-, -, hfirst, all, hall, -, -, -, hdiffer⟩ :=
    candidates_usable 0 [] scope e 3 _ hcandidates
  obtain ⟨_, ⟨⟩, hgenerate⟩ := hfirst (by decide)
  exact ⟨_, hcandidates, rfl, hdiffer (by simp [scope]), hgenerate⟩

/-- Two alternatives that are the same: once both bases are cut for their number, and once the base
of one is what the other is numbered to. -/
theorem candidates_coincide :
    candidates 0 []
        { lead := some "test".toList, component := some "Login".toList,
          limit := some 6, taken := ["test-l".toList, "test-s".toList] }
      { tag := "button".toList, content := some "Save".toList } (3 : ℕ) =
      .ok ["test-1".toList, "test-1".toList] ∧
    candidates 0 [⟨"*".toList, fun _ _ => .ok (some "abc".toList), 0⟩]
        { limit := some 50, taken := ["abc".toList] }
      { tag := "my-1".toList, content := some "abc".toList } (3 : ℕ) =
      .ok ["abc-1".toList, "abc-1".toList] := by
  decide +kernel

end MarkupIds.Naming
