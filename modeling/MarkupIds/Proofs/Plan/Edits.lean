import MarkupIds.Proofs.Plan.Account

/-!
# Elements and their edits

How the edits of a trace relate to the elements they are planned for, and which identifiers the
elements of a file bring along.
-/

namespace MarkupIds

/-! ## Attributes and eligibility -/

namespace Attributes

theorem get?_set (attrs : Attributes) (name value other : Text) :
    get? (set attrs name value) other = if name == other then some value else get? attrs other := by
  induction attrs with
  | nil => cases hname : name == other <;> simp [set, get?, hname]
  | cons a attrs ih =>
      obtain ⟨n, v⟩ := a
      simp only [get?] at ih
      rw [set]
      split
      · rename_i hsame
        obtain rfl : n = name := by simpa using hsame
        cases hname : n == other <;> simp [get?, hname]
      · rename_i hdiffer
        cases hother : n == other with
        | true =>
            obtain rfl : n = other := by simpa using hother
            have hname : (name == n) = false := by
              rw [beq_eq_false_iff_ne]
              rintro rfl
              exact hdiffer (by simp)
            simp [get?, hname]
        | false => simpa [get?, hother] using ih

end Attributes

theorem Element.attribute?_of_not_has {e : Element} {name : Text}
    (h : Attributes.has e.attributes name = false) : e.attribute? name = none := by
  rw [← Option.not_isSome_iff_eq_none, Element.attribute?, Attributes.isSome_get?, h]
  exact Bool.false_ne_true

theorem eligible_congr {config : Config} {e e' : Element} (htag : e'.tag = e.tag)
    (hattrs : e'.attributes = e.attributes) : eligible config e' = eligible config e := by
  rw [eligible, eligible, htag, hattrs]

theorem not_has_of_eligible {config : Config} (hpreserve : config.preserveExisting = true)
    {e : Element} (h : eligible config e = .ok true) :
    Attributes.has e.attributes config.attributeName = false := by
  by_contra hhas
  rw [Bool.not_eq_false] at hhas
  rw [eligible] at h
  simp [hpreserve, hhas] at h

theorem eligible_of_has {config : Config} (hpreserve : config.preserveExisting = true)
    {e : Element} (h : Attributes.has e.attributes config.attributeName = true) :
    eligible config e = .ok false := by
  rw [eligible]
  simp [hpreserve, h]

theorem mem_existingIds {name id : Text} {es : List Element} {e : Element} (he : e ∈ es)
    (hid : e.attribute? name = some id) (hne : id ≠ []) : id ∈ existingIds name es := by
  rw [existingIds, Text.dedup, List.mem_eraseDups, List.mem_filterMap]
  refine ⟨e, he, ?_⟩
  rw [Element.attribute?] at hid
  simp [Attributes.filled?, hid, hne]

/-! ## Edits of a trace -/

namespace Plan

/-- The edits of a trace. -/
def editsOf (config : Config) (trace : List Event) : List Edit :=
  (awards trace).filterMap (Award.edit? config)

theorem editsOf_append (config : Config) (trace rest : List Event) :
    editsOf config (trace ++ rest) = editsOf config trace ++ editsOf config rest := by
  simp [editsOf, awards]

theorem name_of_mem_editsOf {config : Config} {trace : List Event} {t : Edit}
    (h : t ∈ editsOf config trace) : t.name = config.attributeName := by
  obtain ⟨a, _, hedit⟩ := List.mem_filterMap.mp h
  exact (Award.edit?_eq_some hedit).2.2.2.2.1

theorem Award.edit?_of_not_has {config : Config} {a : Award}
    (h : Attributes.has a.element.attributes config.attributeName = false) :
    a.edit? config = some ⟨.add, a.element, config.attributeName, a.value, a.place⟩ := by
  simp [Award.edit?, Element.attribute?_of_not_has h]

theorem editsOf_awarded {config : Config} {a : Award} {trace : List Event}
    (h : Attributes.has a.element.attributes config.attributeName = false) :
    editsOf config (.awarded a :: trace) =
      ⟨.add, a.element, config.attributeName, a.value, a.place⟩ :: editsOf config trace := by
  rw [editsOf, awards_awarded, List.filterMap_cons, Award.edit?_of_not_has h]
  rfl

/-- A trace over two lists of elements is one over the first and one over the second. -/
theorem Trace.split_append {namer : Namer} {config : Config} {scope : Scope} {taken : List Text}
    {es fs : List Element} {trace : List Event}
    (h : Trace namer config scope taken (es ++ fs) trace) :
    ∃ front back taken', trace = front ++ back ∧ Trace namer config scope taken es front ∧
      Trace namer config scope taken' fs back := by
  induction es generalizing taken trace with
  | nil => exact ⟨[], trace, taken, rfl, .nil taken, h⟩
  | cons e es ih =>
      cases h with
      | passed heligible hrest =>
          obtain ⟨front, back, taken', rfl, hfront, hback⟩ := ih hrest
          exact ⟨front, back, taken', rfl, .passed heligible hfront, hback⟩
      | unplaced heligible hposition hrest =>
          obtain ⟨front, back, taken', rfl, hfront, hback⟩ := ih hrest
          exact ⟨_ :: front, back, taken', rfl, .unplaced heligible hposition hfront, hback⟩
      | awarded heligible hposition hbase hvalue hrest =>
          obtain ⟨front, back, taken', rfl, hfront, hback⟩ := ih hrest
          exact ⟨_ :: front, back, taken', rfl,
            .awarded heligible hposition hbase hvalue hfront, hback⟩

theorem Trace.values_isIdText {clock : ℕ} {config : Config} {scope : Scope} {taken : List Text}
    {es : List Element} {trace : List Event}
    (h : Trace (Namer.standard clock) config scope taken es trace) :
    ∀ a ∈ awards trace, Naming.IsIdText a.value := by
  induction h with
  | nil taken => simp
  | passed _ _ ih => exact ih
  | unplaced _ _ _ ih => exact ih
  | awarded _ _ hbase hvalue _ ih =>
      rw [awards_awarded, List.forall_mem_cons]
      exact ⟨Naming.settled_isIdText hbase hvalue, ih⟩

theorem Trace.values_ne_nil {clock : ℕ} {config : Config} {scope : Scope}
    (hlimit : ∀ m, scope.limit = some m → 0 ≤ m) {taken : List Text} {es : List Element}
    {trace : List Event} (h : Trace (Namer.standard clock) config scope taken es trace) :
    ∀ a ∈ awards trace, a.value ≠ [] := by
  induction h with
  | nil taken => simp
  | passed _ _ ih => exact ih
  | unplaced _ _ _ ih => exact ih
  | awarded _ _ hbase hvalue _ ih =>
      rw [awards_awarded, List.forall_mem_cons]
      refine ⟨?_, ih⟩
      obtain ⟨limit, text, rfl⟩ := Naming.propose_eq_clean hbase
      exact Naming.settle_ne_nil hlimit hvalue (Naming.clean_ne_nil limit text)

end Plan

end MarkupIds
