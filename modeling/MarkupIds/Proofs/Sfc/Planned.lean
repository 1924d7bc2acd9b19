import MarkupIds.Proofs.Plan.Edits
import MarkupIds.Proofs.Sfc.Growth

/-!
# Planned edits make sheets grow

With existing identifiers preserved, an eligible element lacks the attribute, so every planned
edit adds it to its own tag. After that no element is eligible any more.
-/

namespace MarkupIds

namespace Sfc

theorem plain_of_isFullName {name value : Text} (hname : isFullName name = true)
    (hvalue : ∀ c ∈ value, isNameChar c = true ∧ c ≠ '<') : Plain name value := by
  refine ⟨isFullName_ne_nil hname, fun c hc => ?_, hvalue⟩
  rcases isMark_or_isNameTail_of_isFullName hname c hc with hmark | htail
  · rcases isMark_iff.mp hmark with rfl | rfl | rfl <;> decide
  · refine ⟨isNameChar_of_isNameTail htail, ?_⟩
    rintro rfl
    exact absurd htail (by decide)

theorem plain_of_isIdText {name value : Text} (hname : isFullName name = true)
    (hvalue : Naming.IsIdText value) : Plain name value := by
  refine plain_of_isFullName hname fun c hc => ⟨isNameChar_of_isIdChar (hvalue c hc), ?_⟩
  rintro rfl
  exact absurd (hvalue _ hc) (by decide)

theorem plain_of_isWordChar {name value : Text} (hname : isFullName name = true)
    (hvalue : ∀ c ∈ value, Text.isWordChar c = true ∨ c = '-') : Plain name value := by
  refine plain_of_isFullName hname fun c hc => ?_
  rcases hvalue c hc with hword | rfl
  · refine ⟨isNameChar_of_isWordChar hword, ?_⟩
    rintro rfl
    exact absurd hword (by decide)
  · decide

section Planned

open Plan

variable {clock : ℕ} {config : Config} {scope : Scope} {line offset n : ℕ} {t : OpenTag}
  {after : Text}

/-- The edit planned for a tag fits it. -/
theorem fits_of_awarded (hpreserve : config.preserveExisting = true)
    (hname : isFullName config.attributeName = true) (hsound : t.Sound)
    (hfull : ∀ w ∈ t.attributes, isFullName w.name = true) (hself : t.selfClosing = false)
    {taken : List Text} {place : Position} {base value : Text}
    (heligible : eligible config (tagElement line offset n t after) = .ok true)
    (hposition : (tagElement line offset n t after).position = some place)
    (hbase : Naming.propose config.rules { scope with taken } (tagElement line offset n t after) =
      .ok base)
    (hvalue : Naming.settle clock scope.limit
      (others config taken (tagElement line offset n t after)) base = .ok value) :
    Fits line offset n t after
      ⟨.add, tagElement line offset n t after, config.attributeName, value, place⟩ := by
  have hplace : place = ⟨line, n + 1, offset + n⟩ := by
    simpa [tagElement, eq_comm] using hposition
  have hvalueText : Naming.IsIdText value := Naming.settled_isIdText hbase hvalue
  have hmissing : ∀ w ∈ t.attributes, w.name ≠ config.attributeName := by
    have hfree : Attributes.has (readAttributes t.attributeText) config.attributeName = false :=
      not_has_of_eligible hpreserve heligible
    rw [OpenTag.attributeText, has_readAttributes hsound.attributes hfull] at hfree
    simpa using hfree
  exact ⟨rfl, rfl, hplace, hname, plain_of_isIdText hname hvalueText, hmissing, hself⟩

/-- A tag that an edit has been made for is not eligible again. -/
theorem eligible_push (hpreserve : config.preserveExisting = true) (hsound : t.Sound)
    (hfull : ∀ w ∈ t.attributes, isFullName w.name = true) {e : Edit}
    (hfits : Fits line offset n t after e) (hname : e.name = config.attributeName)
    (offset' n' : ℕ) (after' : Text) :
    eligible config (tagElement line offset' n' (t.push (added e.name e.value)) after') =
      .ok false := by
  apply eligible_of_has hpreserve
  simp only [tagElement]
  rw [readAttributes_push hsound hfull hfits.full hfits.plain hfits.missing]
  simp [Attributes.has, hname]

/-- The edits planned for a line make its layout grow, and leave no eligible element. -/
theorem exists_grows (hpreserve : config.preserveExisting = true)
    (hname : isFullName config.attributeName = true) {ps : List Piece} (hps : Reads ps) (n : ℕ)
    {taken : List Text} {trace : List Event}
    (h : Trace (Namer.standard clock) config scope taken (elementsOf line offset n ps) trace) :
    ∃ qs, Grows line offset n ps (editsOf config trace) qs ∧
      ∀ offset' n', ∀ e ∈ elementsOf line offset' n' qs, eligible config e = .ok false := by
  induction ps generalizing n taken trace with
  | nil =>
      cases h
      exact ⟨[], .nil n, by simp [elementsOf]⟩
  | cons p ps ih =>
      cases p with
      | char c d =>
          obtain ⟨qs, hgrows, hdone⟩ := ih hps.2 (n + 1) h
          exact ⟨.char c d :: qs, .char hgrows, fun offset' n' => hdone offset' (n' + 1)⟩
      | tag t =>
          obtain ⟨hsound, hfull, hrest⟩ := hps
          rw [elementsOf] at h
          cases hself : t.selfClosing with
          | true =>
              simp only [hself, if_true, List.nil_append] at h
              obtain ⟨qs, hgrows, hdone⟩ := ih hrest _ h
              refine ⟨.tag t :: qs, .keep hgrows, fun offset' n' => ?_⟩
              simpa [elementsOf, hself] using hdone offset' _
          | false =>
              simp only [hself, Bool.false_eq_true, if_false, List.singleton_append] at h
              cases h with
              | passed heligible hlater =>
                  obtain ⟨qs, hgrows, hdone⟩ := ih hrest _ hlater
                  refine ⟨.tag t :: qs, .keep hgrows, fun offset' n' => ?_⟩
                  simp only [elementsOf, hself, Bool.false_eq_true, if_false,
                    List.singleton_append, List.forall_mem_cons]
                  exact ⟨(eligible_congr rfl rfl).trans heligible, hdone offset' _⟩
              | unplaced _ hposition _ => exact absurd hposition (by simp [tagElement])
              | awarded heligible hposition hbase hvalue hlater =>
                  obtain ⟨qs, hgrows, hdone⟩ := ih hrest _ hlater
                  have hfits := fits_of_awarded hpreserve hname hsound hfull hself heligible
                    hposition hbase hvalue
                  rw [editsOf_awarded (not_has_of_eligible hpreserve heligible)]
                  refine ⟨_, .push hfits hgrows, fun offset' n' => ?_⟩
                  simp only [elementsOf, OpenTag.push, hself, Bool.false_eq_true, if_false,
                    List.singleton_append, List.forall_mem_cons]
                  exact ⟨eligible_push hpreserve hsound hfull hfits rfl _ _ _, hdone offset' _⟩

/-- The edits planned for a sheet make it grow, and leave no eligible element. -/
theorem exists_sheetGrows (hpreserve : config.preserveExisting = true)
    (hname : isFullName config.attributeName = true) {inside : Bool}
    {sheet : List (List Piece)} (hlays : Lays inside sheet) (line offset : ℕ)
    {taken : List Text} {trace : List Event}
    (h : Trace (Namer.standard clock) config scope taken (sheetElements line offset sheet)
      trace) :
    ∃ sheet', SheetGrows line offset sheet (editsOf config trace) sheet' ∧
      ∀ offset', ∀ e ∈ sheetElements line offset' sheet', eligible config e = .ok false := by
  induction sheet generalizing inside line offset taken trace with
  | nil =>
      cases h
      exact ⟨[], .nil line offset, by simp [sheetElements]⟩
  | cons ps sheet ih =>
      obtain ⟨hreads, _, hbelow⟩ := hlays
      obtain ⟨front, back, taken', rfl, hfront, hback⟩ := h.split_append
      obtain ⟨qs, hgrows, hdone⟩ := exists_grows hpreserve hname hreads 0 hfront
      obtain ⟨sheet', hsheet, hdone'⟩ := ih hbelow _ _ hback
      refine ⟨qs :: sheet', ?_, fun offset' e he => ?_⟩
      · rw [editsOf_append]
        exact .cons hgrows hsheet
      · rcases List.mem_append.mp he with he | he
        · exact hdone _ _ e he
        · exact hdone' _ e he

end Planned

end Sfc

end MarkupIds
