import MarkupIds.Config.Settings
import MarkupIds.Proofs.Lists
import Mathlib.Data.List.Nodup
import Mathlib.Data.List.Perm.Basic

/-!
# Mappings in other words

A mapping is restated by putting its entries in another order, known keys in another spelling, and
unknown keys in or out. While no key is given twice, a restated mapping gives the same settings or
fails for the same reason. Of two entries for one key the later counts, and the settings hold it.
-/

namespace MarkupIds.Config

/-! ## Spellings -/

namespace Key

/-- The value is one of the spellings of the key. -/
def SpelledBy (key : Key) (k : Value) : Prop :=
  ∃ s ∈ key.spellings, k = .text s.toList

theorem mem_all (key : Key) : key ∈ all := by
  cases key <;> decide

/-- No spelling belongs to two keys. -/
theorem ofValue?_spelling :
    ∀ key ∈ all, ∀ s ∈ key.spellings, ofValue? (.text s.toList) = some key := by
  decide

theorem ofValue?_eq_some_iff {k : Value} {key : Key} :
    ofValue? k = some key ↔ key.SpelledBy k := by
  constructor
  · intro h
    cases k with
    | text t =>
        simp only [ofValue?] at h
        have hfound := List.find?_some h
        obtain ⟨s, hs, hsame⟩ := List.any_eq_true.mp hfound
        exact ⟨s, hs, by rw [beq_iff_eq.mp hsame]⟩
    | _ => exact nomatch h
  · rintro ⟨s, hs, rfl⟩
    exact ofValue?_spelling key (mem_all key) s hs

instance (key : Key) (k : Value) : Decidable (key.SpelledBy k) :=
  decidable_of_iff _ ofValue?_eq_some_iff

theorem ofValue?_eq_none_iff {k : Value} :
    ofValue? k = none ↔ ∀ key : Key, ¬ key.SpelledBy k := by
  simp only [Option.eq_none_iff_forall_ne_some, ne_eq, ofValue?_eq_some_iff]

theorem SpelledBy.unique {k : Value} {key other : Key} (h : key.SpelledBy k)
    (hother : other.SpelledBy k) : other = key := by
  rw [← ofValue?_eq_some_iff] at h hother
  exact Option.some.inj (hother.symm.trans h)

/-- The first spelling of a key. -/
def name (key : Key) : Value :=
  .text (key.spellings.headD "").toList

theorem spelledBy_name (key : Key) : key.SpelledBy key.name := by
  cases key <;> exact ⟨_, List.mem_cons_self, rfl⟩

theorem name_inj {key other : Key} (h : key.name = other.name) : key = other :=
  other.spelledBy_name.unique (h ▸ key.spelledBy_name)

end Key

namespace Settings

/-- An entry of the mapping gives the key the value. -/
def Gives (entries : List (Value × Value)) (key : Key) (v : Value) : Prop :=
  ∃ k, (k, v) ∈ entries ∧ key.SpelledBy k

/-- No key is given twice, in whatever spelling. -/
def Unambiguous (entries : List (Value × Value)) : Prop :=
  entries.Pairwise fun a b => ∀ key : Key, key.SpelledBy a.1 → ¬ key.SpelledBy b.1

theorem unambiguous_iff {entries : List (Value × Value)} :
    Unambiguous entries ↔ (entries.filterMap fun e => Key.ofValue? e.1).Nodup := by
  simp only [Unambiguous, List.Nodup, List.pairwise_filterMap, Key.ofValue?_eq_some_iff]
  refine List.Pairwise.iff ?_
  intro a b
  constructor
  · rintro h key hkey other hother rfl
    exact h key hkey hother
  · intro h key hkey hother
    exact h key hkey key hother rfl

instance (entries : List (Value × Value)) : Decidable (Unambiguous entries) :=
  decidable_of_iff _ unambiguous_iff.symm

/-- The second mapping says what the first one says: entries change places, known keys change their
spelling, and entries for unknown keys come in and go out. -/
inductive Restates : List (Value × Value) → List (Value × Value) → Prop where
  | permute {xs ys : List (Value × Value)} (h : xs.Perm ys) : Restates xs ys
  | respell (front back : List (Value × Value)) (key : Key) {a b : Value} (v : Value)
      (ha : key.SpelledBy a) (hb : key.SpelledBy b) :
      Restates (front ++ (a, v) :: back) (front ++ (b, v) :: back)
  | add (front back : List (Value × Value)) {k : Value} (v : Value)
      (hk : ∀ key : Key, ¬ key.SpelledBy k) : Restates (front ++ back) (front ++ (k, v) :: back)
  | drop (front back : List (Value × Value)) {k : Value} (v : Value)
      (hk : ∀ key : Key, ¬ key.SpelledBy k) : Restates (front ++ (k, v) :: back) (front ++ back)
  | trans {xs ys zs : List (Value × Value)} (hxy : Restates xs ys) (hyz : Restates ys zs) :
      Restates xs zs

/-- The settings of a mapping or why there are none, without the notices on its keys. -/
def ofMapping (entries : List (Value × Value)) : Except SettingsError Settings :=
  (ofValue (.mapping entries)).map Prod.fst

/-- The setting of a key is what the value is converted to. -/
def Holds (s : Settings) (key : Key) (v : Value) : Prop :=
  match key with
  | .attributeName => s.attributeName = v
  | .frameworks => entriesOf v = .ok s.frameworks
  | .namingStrategy => readStrategy v = .ok (s.strategyType, s.transform)
  | .lead => s.lead = v
  | .includeElementTypes => entriesOf v = .ok s.includeElementTypes
  | .customRules => readRules v = .ok s.customRules
  | .conflictResolution => s.conflictResolution = v
  | .maxIdLength => wholeNumber v = .ok s.maxIdLength
  | .preserveExisting => s.preserveExisting = v

/-! ## The value that counts -/

variable {xs ys front back : List (Value × Value)} {key : Key} {k v : Value}

theorem given?_append (xs ys : List (Value × Value)) (key : Key) :
    given? (xs ++ ys) key = (given? ys key).or (given? xs key) := by
  rw [given?, List.reverse_append, List.findSome?_append]
  rfl

theorem given?_eq_none_iff : given? xs key = none ↔ ∀ v, ¬ Gives xs key v := by
  simp only [given?, List.findSome?_eq_none_iff, List.mem_reverse, Prod.forall, Gives, not_exists,
    not_and, beq_iff_eq, Key.ofValue?_eq_some_iff, ite_eq_right_iff, reduceCtorEq, imp_false]
  exact ⟨fun h v k => h k v, fun h k v => h v k⟩

/-- The last entry for a key counts. -/
theorem given?_eq_some_of_last (hk : key.SpelledBy k) (hlast : ∀ v, ¬ Gives back key v) :
    given? (front ++ (k, v) :: back) key = some v := by
  have hone : given? [(k, v)] key = some v := by
    simp [given?, Key.ofValue?_eq_some_iff.mpr hk]
  rw [given?_append, ← List.singleton_append, given?_append, given?_eq_none_iff.mpr hlast, hone]
  rfl

theorem gives_of_given? (h : given? xs key = some v) : Gives xs key v := by
  obtain ⟨⟨k, w⟩, hmem, hvalue⟩ := List.exists_of_findSome?_eq_some h
  dsimp only at hvalue
  split at hvalue
  · rename_i hkey
    obtain rfl := Option.some.inj hvalue
    exact ⟨k, List.mem_reverse.mp hmem, Key.ofValue?_eq_some_iff.mp (beq_iff_eq.mp hkey)⟩
  · exact nomatch hvalue

theorem given?_eq_some_iff (hxs : Unambiguous xs) : given? xs key = some v ↔ Gives xs key v := by
  refine ⟨gives_of_given?, ?_⟩
  rintro ⟨k, hmem, hk⟩
  obtain ⟨front, back, rfl⟩ := List.append_of_mem hmem
  refine given?_eq_some_of_last hk ?_
  rintro w ⟨k', hmem', hk'⟩
  have hpair := List.pairwise_cons.mp (List.pairwise_append.mp hxs).2.1
  exact hpair.1 (k', w) hmem' key hk hk'

/-- An entry does not count if a later one is for the same key. -/
theorem given?_cons_of_gives {w : Value} (hk : key.SpelledBy k) (hlater : Gives xs key w)
    (other : Key) : given? ((k, v) :: xs) other = given? xs other := by
  rw [← List.singleton_append, given?_append]
  by_cases hother : other = key
  · subst hother
    cases hgiven : given? xs other with
    | none => exact absurd hlater (given?_eq_none_iff.mp hgiven w)
    | some _ => rfl
  · have hnone : given? [(k, v)] other = none := by
      rw [given?_eq_none_iff]
      rintro v' ⟨k', hmem, hk'⟩
      obtain ⟨rfl, rfl⟩ := Prod.mk.inj (List.mem_singleton.mp hmem)
      exact hother (hk.unique hk')
    rw [hnone, Option.or_none]

/-! ## Settings by the values that count -/

theorem ofEntries_congr (h : ∀ key, given? xs key = given? ys key) :
    ofEntries xs = ofEntries ys := by
  have hgiven : given? xs = given? ys := funext h
  simp only [ofEntries, hgiven]

theorem ofMapping_eq (entries : List (Value × Value)) : ofMapping entries = ofEntries entries := by
  cases entries with
  | nil => rfl
  | cons e entries =>
      have hvalue : ofValue (.mapping (e :: entries)) =
          (do return (← ofEntries (e :: entries), notices (e :: entries))) := rfl
      rw [ofMapping, hvalue]
      cases ofEntries (e :: entries) <;> rfl

theorem holds_of_given? {s : Settings} (h : ofEntries xs = .ok s) (hgiven : given? xs key = some v) :
    s.Holds key v := by
  unfold ofEntries at h
  obtain ⟨⟨type, transform⟩, hstrategy, h⟩ := bind_eq_ok_iff.mp h
  obtain ⟨rules, hrules, h⟩ := bind_eq_ok_iff.mp h
  obtain ⟨frameworks, hframeworks, h⟩ := bind_eq_ok_iff.mp h
  obtain ⟨types, htypes, h⟩ := bind_eq_ok_iff.mp h
  obtain ⟨length, hlength, h⟩ := bind_eq_ok_iff.mp h
  obtain rfl := Except.ok.inj h
  cases key with
  | frameworks => rwa [hgiven] at hframeworks
  | namingStrategy => rwa [hgiven] at hstrategy
  | includeElementTypes => rwa [hgiven] at htypes
  | customRules => rwa [hgiven] at hrules
  | maxIdLength => rwa [hgiven] at hlength
  | _ => simp [Holds, hgiven]

/-! ## Restated mappings -/

theorem gives_insert {w : Value} :
    Gives (front ++ (k, w) :: back) key v ↔
      key.SpelledBy k ∧ v = w ∨ Gives (front ++ back) key v := by
  constructor
  · rintro ⟨k', hmem, hk'⟩
    simp only [List.mem_append, List.mem_cons, Prod.mk.injEq] at hmem
    rcases hmem with hfront | ⟨rfl, rfl⟩ | hback
    · exact .inr ⟨k', List.mem_append_left _ hfront, hk'⟩
    · exact .inl ⟨hk', rfl⟩
    · exact .inr ⟨k', List.mem_append_right _ hback, hk'⟩
  · rintro (⟨hk, rfl⟩ | ⟨k', hmem, hk'⟩)
    · exact ⟨k, by simp, hk⟩
    · refine ⟨k', ?_, hk'⟩
      simp only [List.mem_append, List.mem_cons] at hmem ⊢
      tauto

/-- Restating keeps the values that keys are given. -/
theorem Restates.gives_iff (h : Restates xs ys) (key : Key) (v : Value) :
    Gives xs key v ↔ Gives ys key v := by
  induction h with
  | permute h => simp only [Gives, h.mem_iff]
  | respell front back spelled w ha hb =>
      have hsame : key.SpelledBy _ ↔ key.SpelledBy _ :=
        ⟨fun h => ha.unique h ▸ hb, fun h => hb.unique h ▸ ha⟩
      rw [gives_insert, gives_insert, hsame]
  | add front back w hk => rw [gives_insert, or_iff_right fun h => hk key h.1]
  | drop front back w hk => rw [gives_insert, or_iff_right fun h => hk key h.1]
  | trans _ _ ihxy ihyz => exact ihxy.trans ihyz

theorem Restates.symm (h : Restates xs ys) : Restates ys xs := by
  induction h with
  | permute h => exact .permute h.symm
  | respell front back key v ha hb => exact .respell front back key v hb ha
  | add front back v hk => exact .drop front back v hk
  | drop front back v hk => exact .add front back v hk
  | trans _ _ ihxy ihyz => exact ihyz.trans ihxy

theorem Restates.cons (h : Restates xs ys) (e : Value × Value) :
    Restates (e :: xs) (e :: ys) := by
  induction h with
  | permute h => exact .permute (h.cons e)
  | respell front back key v ha hb => exact .respell (e :: front) back key v ha hb
  | add front back v hk => exact .add (e :: front) back v hk
  | drop front back v hk => exact .drop (e :: front) back v hk
  | trans _ _ ihxy ihyz => exact ihxy.trans ihyz

/-- The entries for known keys, each key in its first spelling. -/
def named (entries : List (Value × Value)) : List (Value × Value) :=
  entries.filterMap fun (k, v) => (Key.ofValue? k).map fun key => (key.name, v)

theorem restates_named (entries : List (Value × Value)) : Restates entries (named entries) := by
  induction entries with
  | nil => exact .permute .nil
  | cons e entries ih =>
      obtain ⟨k, v⟩ := e
      cases hk : Key.ofValue? k with
      | none =>
          have hnamed : named ((k, v) :: entries) = named entries := by simp [named, hk]
          rw [hnamed]
          exact .trans (.drop [] entries v (Key.ofValue?_eq_none_iff.mp hk)) ih
      | some key =>
          have hnamed : named ((k, v) :: entries) = (key.name, v) :: named entries := by
            simp [named, hk]
          rw [hnamed]
          have hspelled := Key.ofValue?_eq_some_iff.mp hk
          exact .trans (.respell [] entries key v hspelled key.spelledBy_name) (ih.cons _)

theorem mem_named_iff :
    (k, v) ∈ named xs ↔ ∃ key : Key, key.name = k ∧ Gives xs key v := by
  simp only [named, List.mem_filterMap, Option.map_eq_some_iff, Prod.exists, Prod.mk.injEq,
    Key.ofValue?_eq_some_iff]
  constructor
  · rintro ⟨k', v', hmem, key, hk', hname, rfl⟩
    exact ⟨key, hname, k', hmem, hk'⟩
  · rintro ⟨key, hname, k', hmem, hk'⟩
    exact ⟨k', v, hmem, key, hk', hname, rfl⟩

theorem nodup_named (hxs : Unambiguous xs) : (named xs).Nodup := by
  rw [named, List.Nodup, List.pairwise_filterMap]
  refine hxs.imp ?_
  rintro ⟨k, v⟩ ⟨k', v'⟩ happart e he e' he' rfl
  obtain ⟨key, hkey, rfl⟩ := Option.map_eq_some_iff.mp he
  obtain ⟨key', hkey', hsame⟩ := Option.map_eq_some_iff.mp he'
  obtain rfl := Key.name_inj (Prod.mk.inj hsame).1
  exact happart key' (Key.ofValue?_eq_some_iff.mp hkey) (Key.ofValue?_eq_some_iff.mp hkey')

/-- Restating reaches every mapping that gives the same values to the same keys. -/
theorem restates_iff (hxs : Unambiguous xs) (hys : Unambiguous ys) :
    Restates xs ys ↔ ∀ key, given? xs key = given? ys key := by
  have hsame : (∀ key, given? xs key = given? ys key) ↔
      ∀ key v, Gives xs key v ↔ Gives ys key v := by
    simp only [Option.ext_iff, given?_eq_some_iff hxs, given?_eq_some_iff hys]
  rw [hsame]
  refine ⟨Restates.gives_iff, ?_⟩
  intro hgives
  -- Both mappings can be restated by the entries for known keys, and these differ in order only.
  have hperm : (named xs).Perm (named ys) := by
    rw [List.perm_ext_iff_of_nodup (nodup_named hxs) (nodup_named hys)]
    rintro ⟨k, v⟩
    simp only [mem_named_iff, hgives]
  exact (restates_named xs).trans (.trans (.permute hperm) (restates_named ys).symm)

/-- Settings depend on the values that keys are given and on nothing else: restated mappings give
equal settings or fail for one reason, and an entry that a later one for its key follows may be left
out. The settings hold every value that is given. -/
theorem ofMapping_restated :
    (∀ xs ys : List (Value × Value), Unambiguous xs → Unambiguous ys → Restates xs ys →
      ofMapping xs = ofMapping ys) ∧
    (∀ (front mid back : List (Value × Value)) (key : Key) (a b v w : Value),
      key.SpelledBy a → key.SpelledBy b →
      ofMapping (front ++ (a, v) :: (mid ++ (b, w) :: back)) =
        ofMapping (front ++ (mid ++ (b, w) :: back))) ∧
    ∀ (xs : List (Value × Value)) (s : Settings), Unambiguous xs → ofMapping xs = .ok s →
      ∀ key v, Gives xs key v → s.Holds key v := by
  refine ⟨?_, ?_, ?_⟩
  · intro xs ys hxs hys h
    rw [ofMapping_eq, ofMapping_eq]
    exact ofEntries_congr ((restates_iff hxs hys).mp h)
  · intro front mid back key a b v w ha hb
    rw [ofMapping_eq, ofMapping_eq]
    refine ofEntries_congr ?_
    intro other
    have hlater : Gives (mid ++ (b, w) :: back) key w := ⟨b, by simp, hb⟩
    rw [given?_append, given?_append, given?_cons_of_gives ha hlater]
  · intro xs s hxs h key v hgives
    rw [ofMapping_eq] at h
    exact holds_of_given? h ((given?_eq_some_iff hxs).mpr hgives)

/-- A bound and a first word in other words, with a key that is not known; and an attribute that is
given in both spellings. -/
theorem ofMapping_restated_bound :
    let entry (k v : String) : Value × Value := (.text k.toList, .text v.toList)
    let given := [entry "maxIdLength" "30", (.text "verbose".toList, .bool true), entry "prefix" "qa"]
    let restated := [entry "prefix" "qa", entry "max_id_length" "30"]
    Unambiguous given ∧ Unambiguous restated ∧ Restates given restated ∧
      ofMapping given = ofMapping restated ∧
      (∃ s, ofMapping restated = .ok s ∧ s.maxIdLength = 30 ∧ s.lead = .text "qa".toList) ∧
      ofMapping [entry "attribute_name" "data-qa", entry "attributeName" "data-cy"] =
        ofMapping [entry "attributeName" "data-cy"] := by
  intro entry given restated
  have hgiven : Unambiguous given := by decide
  have hrestated : Unambiguous restated := by decide
  have hunknown : Key.ofValue? (.text "verbose".toList) = none := by decide
  have hsame : Restates given restated :=
    .trans (.drop [entry "maxIdLength" "30"] [entry "prefix" "qa"] (.bool true)
        (Key.ofValue?_eq_none_iff.mp hunknown))
      (.trans (.respell [] [entry "prefix" "qa"] .maxIdLength _ (by decide) (by decide))
        (.permute (.swap _ _ [])))
  obtain ⟨hequal, hlater, hholds⟩ := ofMapping_restated
  obtain ⟨s, hs⟩ : ∃ s, ofMapping restated = .ok s := ⟨_, rfl⟩
  have hlength := hholds restated s hrestated hs .maxIdLength (.text "30".toList)
    ⟨.text "max_id_length".toList, by simp [restated, entry], by decide⟩
  have hlead := hholds restated s hrestated hs .lead (.text "qa".toList)
    ⟨.text "prefix".toList, by simp [restated, entry], by decide⟩
  refine ⟨hgiven, hrestated, hsame, hequal given restated hgiven hrestated hsame,
    ⟨s, hs, ?_, hlead⟩, ?_⟩
  · exact (Except.ok.inj hlength).symm
  · exact hlater [] [] [] .attributeName _ _ _ _ (by decide) (by decide)

end Settings

end MarkupIds.Config
