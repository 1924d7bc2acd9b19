import MarkupIds.Proofs.Sfc.Apart
import MarkupIds.Proofs.Sfc.Update

/-!
# Which attributes a tag has

The reader asks for the attributes of a tag by reading names from its text, an edit by taking the
text apart as the tag was taken apart. The reader knows full names only, so the two agree on a tag
exactly if all of its attributes have full names.
-/

namespace MarkupIds.Sfc

/-! ## Names that are read -/

theorem isFullName_of_mem_pairs {fuel : ℕ} {cs : Text} {p : Text × Text} (h : p ∈ pairs fuel cs) :
    isFullName p.1 = true := by
  induction fuel generalizing cs with
  | zero => exact absurd h List.not_mem_nil
  | succ fuel ih =>
      rw [pairs.eq_def] at h
      dsimp only at h
      split at h
      · rename_i name rest hname
        split at h
        all_goals
          rcases List.mem_cons.mp h with rfl | h
          · exact (name?_sound hname).2
          · exact ih h
      · split at h
        · exact absurd h List.not_mem_nil
        · exact ih h

theorem isFullName_of_has {cs name : Text}
    (h : Attributes.has (readAttributes cs) name = true) : isFullName name = true := by
  rw [readAttributes, Attributes.has_foldl_set] at h
  obtain ⟨value, hpair⟩ : ∃ value, (name, value) ∈ pairs (cs.length + 1) cs := by
    simpa [Attributes.has] using h
  exact isFullName_of_mem_pairs hpair

/-! ## Agreement -/

/-- The edit removes an attribute from this tag. -/
structure Removes (e : Edit) (column : ℕ) (t : OpenTag) : Prop where
  kind : e.kind = .remove
  tag : e.element.tag = t.name
  column : e.position.column = column + 1

theorem Removes.editLine_eq_ok_iff {e : Edit} {front : Text} {t : OpenTag}
    (h : Removes e front.length t) (ht : t.Sound) (after : Text) :
    (∃ line', editLine (front ++ (t.render ++ after)) e = .ok line') ↔
      ∃ w ∈ t.attributes, w.name = e.name := by
  have hcolumn : (e.position.column - 1).toNat = front.length := by
    rw [h.column]
    omega
  rw [editLine_render ht h.tag hcolumn, if_pos h.kind]
  split
  · rename_i hany
    simpa using hany
  · rename_i hnone
    simpa using hnone

/-- The names that are read of a tag are those that an edit finds in it if and only if all names
in it are full. -/
theorem attributes_agree_iff {line after : Text} {column : ℕ} {t : OpenTag}
    (h : (column, t, after) ∈ openTags (line.length + 1) 0 line) :
    (∀ e, Removes e column t → (Attributes.has (readAttributes t.attributeText) e.name = true ↔
        ∃ line', editLine line e = .ok line')) ↔
      ∀ w ∈ t.attributes, isFullName w.name = true := by
  obtain ⟨front, rfl, hcolumn, ht⟩ := exists_of_mem_openTags h
  obtain rfl : column = front.length := by simpa using hcolumn
  constructor
  · -- An edit finds every name that is written, and only full names are read.
    intro hagree w hw
    let e : Edit :=
      { kind := .remove, element := { tag := t.name }, name := w.name, value := []
        position := ⟨1, front.length + 1, 0⟩ }
    have he : Removes e front.length t := ⟨rfl, rfl, rfl⟩
    have hfound := (he.editLine_eq_ok_iff ht after).mpr ⟨w, hw, rfl⟩
    exact isFullName_of_has ((hagree e he).mpr hfound)
  · intro hfull e he
    rw [he.editLine_eq_ok_iff ht, OpenTag.attributeText, has_readAttributes ht.attributes hfull]
    simp

/-- Two tags with marks and quotes of every kind. -/
theorem attributes_agree_iff_marks :
    let line := "<b/><a  :x.y-1='>' @c=d #e f:g= \"h=1\" ><b>".toList
    let t : OpenTag :=
      { name := ['a'], blanks := [' ']
        attributes :=
          [{ blanks := "  ".toList, name := ":x.y-1".toList
             assignment := some { quoting := .single, value := ['>'] } },
           { blanks := [' '], name := "@c".toList
             assignment := some { quoting := .bare, value := ['d'] } },
           { blanks := [' '], name := "#e".toList },
           { blanks := [' '], name := "f:g".toList
             assignment := some { blanksAfter := [' '], value := "h=1".toList } }] }
    (4, t, "<b>".toList) ∈ openTags (line.length + 1) 0 line ∧
      ∀ e, Removes e 4 t → (Attributes.has (readAttributes t.attributeText) e.name = true ↔
        ∃ line', editLine line e = .ok line') := by
  intro line t
  have hread : (4, t, "<b>".toList) ∈ openTags (line.length + 1) 0 line := by decide +kernel
  exact ⟨hread, (attributes_agree_iff hread).mpr (by decide)⟩

/-- A name with brackets is found but not read, and the word between them is read but not found. -/
theorem attributes_disagree_brackets :
    let line := "<button :[id]=\"key\">Go</button>".toList
    let t : OpenTag :=
      { name := "button".toList
        attributes :=
          [{ blanks := [' '], name := ":[id]".toList, assignment := some { value := "key".toList } }] }
    (0, t, "Go</button>".toList) ∈ openTags (line.length + 1) 0 line ∧
      ¬ ∀ e, Removes e 0 t → (Attributes.has (readAttributes t.attributeText) e.name = true ↔
        ∃ line', editLine line e = .ok line') := by
  intro line t
  refine ⟨by decide +kernel, fun hagree => ?_⟩
  let e : Edit :=
    { kind := .remove, element := { tag := "button".toList }, name := ":[id]".toList, value := []
      position := ⟨1, 1, 0⟩ }
  have hfound : ∃ line', editLine line e = .ok line' :=
    ⟨"<button>Go</button>".toList, by decide +kernel⟩
  have hread := (hagree e ⟨rfl, rfl, rfl⟩).mpr hfound
  exact absurd hread (by decide +kernel)

end MarkupIds.Sfc
