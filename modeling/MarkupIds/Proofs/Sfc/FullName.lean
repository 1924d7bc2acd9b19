import MarkupIds.Proofs.Sfc.Rendering

/-!
# Attributes with full names

Two scans read attributes. The one that finds tags takes any run of characters for a name, the
one that reads values only a full name. Where all names are full, both read the same attributes.
-/

namespace MarkupIds

namespace Attributes

theorem set_of_not_has {attrs : Attributes} {name : Text} (h : has attrs name = false)
    (value : Text) : set attrs name value = attrs ++ [(name, value)] := by
  induction attrs with
  | nil => rfl
  | cons a attrs ih =>
      obtain ⟨n, v⟩ := a
      simp only [has, List.any_cons, Bool.or_eq_false_iff] at h
      rw [set, if_neg (by simp [h.1]), ih h.2]
      rfl

theorem has_set (attrs : Attributes) (name value other : Text) :
    has (set attrs name value) other = (has attrs other || name == other) := by
  induction attrs with
  | nil => simp [set, has]
  | cons a attrs ih =>
      obtain ⟨n, v⟩ := a
      simp only [has] at ih
      rw [set]
      split
      · rename_i hname
        obtain rfl : n = name := by simpa using hname
        simp only [has, List.any_cons]
        cases n == other <;> simp
      · simp only [has, List.any_cons, ih, Bool.or_assoc]

theorem has_foldl_set (pairs : List (Text × Text)) (attrs : Attributes) (name : Text) :
    has (pairs.foldl (fun attrs (n, v) => set attrs n v) attrs) name =
      (has attrs name || pairs.any (·.1 == name)) := by
  induction pairs generalizing attrs with
  | nil => simp
  | cons p pairs ih => rw [List.foldl_cons, ih, has_set, List.any_cons, Bool.or_assoc]

end Attributes

namespace Sfc

/-! ## Full names -/

/-- A name without a mark. -/
def isPlainName : Text → Bool
  | [] => false
  | c :: cs => isNameStart c && cs.all isNameTail

/-- A name as a whole: perhaps a mark, a letter or underscore, then word characters, points,
colons and hyphens. -/
def isFullName : Text → Bool
  | [] => false
  | c :: cs => if isMark c then isPlainName cs else isPlainName (c :: cs)

theorem isNameTail_of_isPlainName {name : Text} (h : isPlainName name = true) :
    ∀ c ∈ name, isNameTail c = true := by
  cases name with
  | nil => simp
  | cons c cs =>
      simp only [isPlainName, Bool.and_eq_true, List.all_eq_true] at h
      intro d hd
      rcases List.mem_cons.mp hd with rfl | hd
      · exact isNameTail_of_isNameStart h.1
      · exact h.2 d hd

theorem isMark_or_isNameTail_of_isFullName {name : Text} (h : isFullName name = true) :
    ∀ c ∈ name, isMark c = true ∨ isNameTail c = true := by
  cases name with
  | nil => simp
  | cons c cs =>
      rw [isFullName] at h
      intro d hd
      split at h
      · rename_i hmark
        rcases List.mem_cons.mp hd with rfl | hd
        · exact .inl hmark
        · exact .inr (isNameTail_of_isPlainName h d hd)
      · exact .inr (isNameTail_of_isPlainName h d hd)

theorem isFullName_ne_nil {name : Text} (h : isFullName name = true) : name ≠ [] := by
  rintro rfl
  exact Bool.noConfusion h

/-- A full name is read as a whole where no name character follows. -/
theorem name?_append {name rest : Text} (hname : isFullName name = true)
    (hrest : ∀ c ∈ rest.head?, isNameTail c = false) :
    name? (name ++ rest) = some (name, rest) := by
  have htail : ∀ cs : Text, cs.all isNameTail = true →
      (cs ++ rest).takeWhile isNameTail = cs ∧ (cs ++ rest).dropWhile isNameTail = rest := by
    intro cs hcs
    rw [List.all_eq_true] at hcs
    exact ⟨Text.takeWhile_append_stop hcs hrest, Text.dropWhile_append_stop hcs hrest⟩
  cases name with
  | nil => exact Bool.noConfusion hname
  | cons c cs =>
      rw [isFullName] at hname
      split at hname
      · rename_i hmark
        cases cs with
        | nil => exact Bool.noConfusion hname
        | cons d ds =>
            simp only [isPlainName, Bool.and_eq_true] at hname
            obtain ⟨hstart, hds⟩ := hname
            simp [name?, hmark, hstart, htail ds hds]
      · rename_i hmark
        simp only [isPlainName, Bool.and_eq_true] at hname
        obtain ⟨hstart, hcs⟩ := hname
        simp [name?, hmark, hstart, htail cs hcs]

theorem name?_of_isBlank {c : Char} (h : Text.isBlank c = true) (cs : Text) :
    name? (c :: cs) = none := by
  have hmark : isMark c = false := by
    by_contra hmark
    rcases isMark_iff.mp (by simpa using hmark) with rfl | rfl | rfl <;>
      exact absurd h (by decide)
  have hstart : isNameStart c = false := by
    by_contra hstart
    have hname := isNameChar_of_isNameTail (isNameTail_of_isNameStart (by simpa using hstart))
    rw [isNameChar_eq_false_of_isBlank h] at hname
    exact Bool.noConfusion hname
  simp [name?, hmark, hstart]

/-! ## Reading values -/

namespace Written

/-- The name and value that an attribute stands for. -/
def pair (w : Written) : Text × Text :=
  (w.name, (w.assignment.map (·.value)).getD [])

end Written

theorem pairs_blanks {blanks : Text} (h : ∀ c ∈ blanks, Text.isBlank c = true) (fuel : ℕ)
    (rest : Text) : pairs (fuel + blanks.length) (blanks ++ rest) = pairs fuel rest := by
  induction blanks with
  | nil => rfl
  | cons c cs ih =>
      have hskip := name?_of_isBlank (h c (by simp)) (cs ++ rest)
      rw [List.length_cons, ← Nat.add_assoc, List.cons_append, pairs, hskip]
      exact ih fun d hd => h d (by simp [hd])

theorem isNameTail_eq_false {c : Char} (h : isNameChar c = false) : isNameTail c = false := by
  by_contra htail
  rw [isNameChar_of_isNameTail (by simpa using htail)] at h
  exact Bool.noConfusion h

theorem pairs_written {w : Written} (hw : w.Sound) (hname : isFullName w.name = true)
    {rest : Text} (hrest : w.Stops rest) (fuel : ℕ) :
    pairs (fuel + 1 + w.blanks.length) (w.render ++ rest) = w.pair :: pairs fuel rest := by
  obtain ⟨blanks, name, assignment⟩ := w
  simp only [Written.render, List.append_assoc, Written.pair] at hw hrest ⊢
  rw [pairs_blanks hw.blanks]
  cases assignment with
  | none =>
      have hstop : ∀ c ∈ rest.head?, isNameTail c = false :=
        fun c hc => isNameTail_eq_false (hrest.name rfl c hc)
      simp only [Option.map_none, Option.getD_none, List.nil_append]
      rw [pairs.eq_def]
      simp only [name?_append hname hstop, hrest.assignment rfl]
  | some a =>
      have hstop : ∀ c ∈ (a.render ++ rest).head?, isNameTail c = false := by
        intro c hc
        apply isNameTail_eq_false
        exact (hw.assignment a rfl).isNameChar_head? rest c hc
      simp only [Option.map_some, Option.getD_some]
      rw [pairs.eq_def]
      simp only [name?_append hname hstop,
        assignment?_render (hw.assignment a rfl) (hrest.value a rfl)]

theorem Written.stops_nil (w : Written) : w.Stops [] :=
  ⟨by simp, fun _ => rfl, fun _ _ _ => by simp⟩

theorem pairs_flatMap {ws : List Written} (hws : ∀ w ∈ ws, w.Sound)
    (hnames : ∀ w ∈ ws, isFullName w.name = true) {fuel : ℕ}
    (hfuel : (ws.flatMap Written.render).length < fuel) :
    pairs fuel (ws.flatMap Written.render) = ws.map Written.pair := by
  induction ws generalizing fuel with
  | nil =>
      cases fuel with
      | zero => exact absurd hfuel (by simp)
      | succ fuel => rfl
  | cons w ws ih =>
      have hw := hws w (by simp)
      have hsound : ∀ v ∈ ws, v.Sound := fun v hv => hws v (by simp [hv])
      have hname_pos : 0 < w.name.length := List.length_pos_iff.mpr hw.name_ne
      simp only [List.flatMap_cons, List.length_append, Written.render] at hfuel
      obtain ⟨spare, rfl⟩ : ∃ spare, fuel = spare + 1 + w.blanks.length :=
        ⟨fuel - 1 - w.blanks.length, by omega⟩
      have hstops : w.Stops (ws.flatMap Written.render) := by
        simpa using stops_flatMap hsound fun v _ => v.stops_nil
      rw [List.flatMap_cons, pairs_written hw (hnames w (by simp)) hstops, List.map_cons,
        ih hsound (fun v hv => hnames v (by simp [hv]))]
      omega

/-- The attributes of a list with full names, written out. -/
theorem readAttributes_flatMap {ws : List Written} (hws : ∀ w ∈ ws, w.Sound)
    (hnames : ∀ w ∈ ws, isFullName w.name = true) :
    readAttributes (ws.flatMap Written.render) =
      ws.foldl (fun attrs w => Attributes.set attrs w.pair.1 w.pair.2) [] := by
  rw [readAttributes, pairs_flatMap hws hnames (by omega), List.foldl_map]

/-- A name is read exactly where an attribute of that name is written. -/
theorem has_readAttributes {ws : List Written} (hws : ∀ w ∈ ws, w.Sound)
    (hnames : ∀ w ∈ ws, isFullName w.name = true) (name : Text) :
    Attributes.has (readAttributes (ws.flatMap Written.render)) name =
      ws.any (·.name == name) := by
  rw [readAttributes, pairs_flatMap hws hnames (by omega), Attributes.has_foldl_set, List.any_map]
  rfl

/-! ## Looking for an attribute -/

theorem written?_blanks {blanks : Text} (h : ∀ c ∈ blanks, Text.isBlank c = true) :
    written? blanks = none := by
  have hdrop : blanks.dropWhile Text.isBlank = [] := List.dropWhile_eq_nil_iff.mpr h
  rw [written?, hdrop]
  split <;> rfl

theorem findWritten?_blanks {blanks : Text} (h : ∀ c ∈ blanks, Text.isBlank c = true)
    (name : Text) (fuel : ℕ) : findWritten? name fuel blanks = none := by
  induction fuel generalizing blanks with
  | zero => rfl
  | succ fuel ih =>
      cases blanks with
      | nil => rw [findWritten?.eq_def]; simp only [written?_blanks h]
      | cons c cs =>
          have hcs := ih fun d (hd : d ∈ cs) => h d (by simp [hd])
          rw [findWritten?.eq_def]
          simp only [written?_blanks h, hcs, Option.map_none]

theorem Written.stops_blanks (w : Written) {blanks : Text}
    (h : ∀ c ∈ blanks, Text.isBlank c = true) : w.Stops blanks := by
  have hhead : ∀ c ∈ blanks.head?, Text.isBlank c = true :=
    fun c hc => h c (List.mem_of_mem_head? hc)
  refine ⟨fun _ c hc => isNameChar_eq_false_of_isBlank (hhead c hc), ?_,
    fun _ _ _ c hc => isBareChar_eq_false_of_isBlank (hhead c hc)⟩
  intro _
  apply assignment?_eq_none
  have hdrop : blanks.dropWhile Text.isBlank = [] := List.dropWhile_eq_nil_iff.mpr h
  simp [hdrop]

/-- An attribute that no name of the list is equal to is not found. -/
theorem findWritten?_eq_none {ws : List Written} (hws : ∀ w ∈ ws, w.Sound) {blanks name : Text}
    (hblanks : ∀ c ∈ blanks, Text.isBlank c = true) (hname : ∀ w ∈ ws, w.name ≠ name)
    (fuel : ℕ) : findWritten? name fuel (ws.flatMap Written.render ++ blanks) = none := by
  induction ws generalizing fuel with
  | nil => exact findWritten?_blanks hblanks name fuel
  | cons w ws ih =>
      cases fuel with
      | zero => rfl
      | succ fuel =>
          have hsound : ∀ v ∈ ws, v.Sound := fun v hv => hws v (by simp [hv])
          have hstops : w.Stops (ws.flatMap Written.render ++ blanks) :=
            stops_flatMap hsound fun v _ => v.stops_blanks hblanks
          rw [List.flatMap_cons, List.append_assoc, findWritten?.eq_def]
          simp only [written?_render (hws w (by simp)) hstops]
          rw [if_neg (by simpa using hname w (by simp)),
            ih hsound (fun v hv => hname v (by simp [hv]))]
          rfl

end Sfc

end MarkupIds
