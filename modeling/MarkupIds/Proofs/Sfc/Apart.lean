import MarkupIds.Proofs.Sfc.Growth

/-!
# Attributes that are read one by one

The scan that reads values starts again behind every name that it cannot read, even inside a
value. It still reads an attribute apart from those behind it if the attribute has a full name, or
if no equals sign in its value can tie a word of the value to what follows.
-/

namespace MarkupIds.Sfc

/-! ## Names -/

/-- What is read as a name is a full name, as long as it can be. -/
theorem name?_sound {cs name rest : Text} (h : name? cs = some (name, rest)) :
    cs = name ++ rest ∧ isFullName name = true := by
  have htail : ∀ cs : Text, (cs.takeWhile isNameTail).all isNameTail = true :=
    fun cs => List.all_eq_true.mpr fun c hc => List.mem_takeWhile_imp hc
  cases cs with
  | nil => exact nomatch h
  | cons c cs =>
      by_cases hmark : isMark c = true
      · cases cs with
        | nil => simp [name?, hmark] at h
        | cons d ds =>
            by_cases hstart : isNameStart d = true
            · obtain ⟨rfl, rfl⟩ : c :: d :: ds.takeWhile isNameTail = name ∧
                  ds.dropWhile isNameTail = rest := by
                simpa [name?, hmark, hstart] using h
              simp [isFullName, isPlainName, hmark, hstart, htail]
            · simp [name?, hmark, hstart] at h
      · by_cases hstart : isNameStart c = true
        · obtain ⟨rfl, rfl⟩ : c :: cs.takeWhile isNameTail = name ∧
              cs.dropWhile isNameTail = rest := by
            simpa [name?, hmark, hstart] using h
          simp [isFullName, isPlainName, hmark, hstart, htail]
        · simp [name?, hmark, hstart] at h

theorem isNameStart_eq_false {c : Char} (h : isNameTail c = false) : isNameStart c = false := by
  by_contra hstart
  rw [isNameTail_of_isNameStart (by simpa using hstart)] at h
  exact Bool.noConfusion h

/-- A name ends at a character that no name has. -/
theorem name?_append_of_ne_nil {text rest : Text} (hne : text ≠ [])
    (hrest : ∀ c ∈ rest.head?, isNameTail c = false) :
    name? (text ++ rest) = (name? text).map fun (name, after) => (name, after ++ rest) := by
  cases text with
  | nil => exact absurd rfl hne
  | cons c cs =>
      by_cases hmark : isMark c = true
      · cases cs with
        | cons d ds =>
            by_cases hstart : isNameStart d = true
            · simp [name?, hmark, hstart, Text.takeWhile_append ds hrest,
                Text.dropWhile_append ds hrest]
            · simp [name?, hmark, hstart]
        | nil =>
            cases rest with
            | nil => simp [name?, hmark]
            | cons d rest => simp [name?, hmark, isNameStart_eq_false (hrest d rfl)]
      · by_cases hstart : isNameStart c = true
        · simp [name?, hmark, hstart, Text.takeWhile_append cs hrest,
            Text.dropWhile_append cs hrest]
        · simp [name?, hmark, hstart]

/-! ## The scan -/

/-- The names and values of an attribute list. -/
def readPairs (cs : Text) : List (Text × Text) :=
  pairs (cs.length + 1) cs

theorem pairs_eq_of_lt {fuel fuel' : ℕ} {cs : Text} (hfuel : cs.length < fuel)
    (hfuel' : cs.length < fuel') : pairs fuel cs = pairs fuel' cs := by
  induction fuel generalizing fuel' cs with
  | zero => exact absurd hfuel (Nat.not_lt_zero _)
  | succ fuel ih =>
      obtain ⟨fuel', rfl⟩ := Nat.exists_eq_succ_of_ne_zero (Nat.ne_of_gt (Nat.zero_lt_of_lt hfuel'))
      rw [pairs.eq_def, pairs.eq_def]
      dsimp only
      cases hname : name? cs with
      | none =>
          cases cs with
          | nil => rfl
          | cons c cs => exact ih (by simpa using hfuel) (by simpa using hfuel')
      | some found =>
          obtain ⟨name, rest⟩ := found
          obtain ⟨rfl, hfull⟩ := name?_sound hname
          have hpos := List.length_pos_iff.mpr (isFullName_ne_nil hfull)
          rw [List.length_append] at hfuel hfuel'
          dsimp only
          cases hassign : assignment? rest with
          | none => exact congrArg _ (ih (by omega) (by omega))
          | some found =>
              obtain ⟨a, after⟩ := found
              obtain ⟨rfl, _, _⟩ := assignment?_sound hassign
              rw [List.length_append] at hfuel hfuel'
              exact congrArg _ (ih (by omega) (by omega))

theorem readPairs_eq {fuel : ℕ} {cs : Text} (hfuel : cs.length < fuel) :
    pairs fuel cs = readPairs cs :=
  pairs_eq_of_lt hfuel (Nat.lt_succ_self _)

theorem readPairs_skip {c : Char} {cs : Text} (h : name? (c :: cs) = none) :
    readPairs (c :: cs) = readPairs cs := by
  rw [readPairs, pairs.eq_def]
  simp only [h]
  exact readPairs_eq (by simp)

theorem readPairs_name {cs name rest : Text} (h : name? cs = some (name, rest))
    (hassign : assignment? rest = none) : readPairs cs = (name, []) :: readPairs rest := by
  obtain ⟨rfl, hfull⟩ := name?_sound h
  have hpos := List.length_pos_iff.mpr (isFullName_ne_nil hfull)
  rw [readPairs, pairs.eq_def]
  simp only [h, hassign]
  rw [readPairs_eq]
  rw [List.length_append]
  omega

theorem readPairs_assigned {cs name rest after : Text} {a : Assignment}
    (h : name? cs = some (name, rest)) (hassign : assignment? rest = some (a, after)) :
    readPairs cs = (name, a.value) :: readPairs after := by
  obtain ⟨rfl, hfull⟩ := name?_sound h
  obtain ⟨rfl, _, _⟩ := assignment?_sound hassign
  have hpos := List.length_pos_iff.mpr (isFullName_ne_nil hfull)
  rw [readPairs, pairs.eq_def]
  simp only [h, hassign]
  rw [readPairs_eq]
  simp only [List.length_append]
  omega

/-- Text that neither goes on a name nor assigns a value to it. -/
structure Breaks (rest : Text) : Prop where
  blank : ∀ c ∈ rest.head?, Text.isBlank c = true
  sign : ∀ c ∈ (rest.dropWhile Text.isBlank).head?, c ≠ '='

theorem Breaks.isNameTail_head? {rest : Text} (h : Breaks rest) :
    ∀ c ∈ rest.head?, isNameTail c = false :=
  fun c hc => isNameTail_eq_false (isNameChar_eq_false_of_isBlank (h.blank c hc))

theorem breaks_flatMap {ws : List Written} (hws : ∀ w ∈ ws, w.Sound) :
    Breaks (ws.flatMap Written.render) := by
  cases ws with
  | nil => exact ⟨by simp, by simp⟩
  | cons w ws =>
      have hw := hws w (by simp)
      refine ⟨?_, ?_⟩
      · intro c hc
        obtain ⟨d, hhead, hblank⟩ := hw.isBlank_head? (ws.flatMap Written.render)
        rw [List.flatMap_cons, hhead] at hc
        obtain rfl := Option.some.inj hc
        exact hblank
      · intro c hc
        obtain ⟨d, ds, hname⟩ := List.exists_cons_of_ne_nil hw.name_ne
        rw [List.flatMap_cons, hw.dropWhile_isBlank, hname] at hc
        obtain rfl : d = c := by simpa using hc
        exact (isNameChar_iff.mp (hw.name d (by simp [hname]))).2.2.2.2.2

/-- A text without an equals sign that is not all blank lies in front of every assignment. -/
theorem assignment?_append_eq_none {text rest : Text} (htext : '=' ∉ text)
    (hrest : (∀ c ∈ text, Text.isBlank c = true) →
      ∀ c ∈ (rest.dropWhile Text.isBlank).head?, c ≠ '=') :
    assignment? (text ++ rest) = none := by
  apply assignment?_eq_none
  intro c hc
  rw [List.dropWhile_append] at hc
  split at hc
  · rename_i hall
    rw [List.isEmpty_iff, List.dropWhile_eq_nil_iff] at hall
    exact hrest hall c hc
  · rename_i hsome
    rw [List.isEmpty_iff] at hsome
    obtain ⟨d, ds, hd⟩ := List.exists_cons_of_ne_nil hsome
    rw [hd] at hc
    obtain rfl : d = c := by simpa using hc
    rintro rfl
    have hmem : '=' ∈ text.dropWhile Text.isBlank := by simp [hd]
    exact htext ((List.dropWhile_suffix _).subset hmem)

/-- Without an equals sign nothing is read across the end of a text. -/
theorem readPairs_append {text rest : Text} (htext : '=' ∉ text) (hrest : Breaks rest) :
    readPairs (text ++ rest) = readPairs text ++ readPairs rest := by
  induction hlength : text.length using Nat.strong_induction_on generalizing text with
  | _ n ih =>
      cases text with
      | nil => rfl
      | cons c cs =>
          have hnext := name?_append_of_ne_nil (List.cons_ne_nil c cs) hrest.isNameTail_head?
          cases hname : name? (c :: cs) with
          | none =>
              rw [hname, Option.map_none] at hnext
              have hcs : '=' ∉ cs := fun hmem => htext (List.mem_cons_of_mem c hmem)
              calc readPairs (c :: (cs ++ rest)) = readPairs (cs ++ rest) := readPairs_skip hnext
                _ = readPairs cs ++ readPairs rest := ih cs.length (by simp [← hlength]) hcs rfl
                _ = readPairs (c :: cs) ++ readPairs rest := by rw [readPairs_skip hname]
          | some found =>
              obtain ⟨name, after⟩ := found
              obtain ⟨hparts, hfull⟩ := name?_sound hname
              have hpos := List.length_pos_iff.mpr (isFullName_ne_nil hfull)
              have hafter : '=' ∉ after := fun hmem =>
                htext (by rw [hparts]; exact List.mem_append_right _ hmem)
              have hshort : after.length < n := by
                rw [← hlength, hparts, List.length_append]
                omega
              have hopen : assignment? after = none := by
                rw [← List.append_nil after]
                exact assignment?_append_eq_none hafter (by simp)
              rw [hname, Option.map_some] at hnext
              rw [readPairs_name hname hopen,
                readPairs_name hnext (assignment?_append_eq_none hafter fun _ => hrest.sign),
                ih after.length hshort hafter rfl]
              rfl

/-! ## Attributes -/

/-- The attribute can be read apart from what follows it. -/
def Written.Apart (w : Written) : Prop :=
  isFullName w.name = true ∨ ∀ a ∈ w.assignment, '=' ∉ a.value

instance (w : Written) : Decidable w.Apart :=
  inferInstanceAs (Decidable (isFullName w.name = true ∨ ∀ a ∈ w.assignment, '=' ∉ a.value))

theorem readPairs_blanks {blanks : Text} (h : ∀ c ∈ blanks, Text.isBlank c = true) (rest : Text) :
    readPairs (blanks ++ rest) = readPairs rest := by
  induction blanks with
  | nil => rfl
  | cons c cs ih =>
      rw [List.cons_append, readPairs_skip (name?_of_isBlank (h c (by simp)) _)]
      exact ih fun d hd => h d (by simp [hd])

/-- An attribute with a full name is read as a whole. -/
theorem readPairs_written {w : Written} (hw : w.Sound) (hname : isFullName w.name = true)
    {rest : Text} (hrest : w.Stops rest) :
    readPairs (w.render ++ rest) = w.pair :: readPairs rest := by
  have hpos := List.length_pos_iff.mpr hw.render_ne_nil
  have hlength : rest.length < (w.render ++ rest).length := by
    rw [List.length_append]
    omega
  have hread := pairs_written hw hname hrest (w.render ++ rest).length
  rwa [readPairs_eq (by omega), readPairs_eq hlength] at hread

section Assigned

variable {a : Assignment} (ha : a.Sound) (hvalue : '=' ∉ a.value) {rest : Text}
  (hstops : a.quoting.Stops rest) (hrest : Breaks rest)
include ha hvalue hrest

/-- A value that no name takes is read as words of its own. -/
theorem readPairs_unnamed : readPairs (a.render ++ rest) = readPairs a.render ++ readPairs rest := by
  have henclose : '=' ∉ a.blanksAfter ++ a.quoting.enclose a.value := by
    rw [List.mem_append, not_or]
    refine ⟨fun hmem => absurd (ha.after _ hmem) (by decide), ?_⟩
    cases a.quoting <;> simpa [Quoting.enclose] using hvalue
  have hrender : ∀ tail, readPairs (a.render ++ tail) =
      readPairs ((a.blanksAfter ++ a.quoting.enclose a.value) ++ tail) := by
    intro tail
    rw [Assignment.render_eq, List.append_assoc, readPairs_blanks ha.before, List.cons_append,
      readPairs_skip (by rfl)]
  have hwhole := hrender []
  rw [List.append_nil, List.append_nil] at hwhole
  rw [hrender, hwhole, readPairs_append henclose hrest]

include hstops

/-- A name right in front of an equals sign takes the value, and no other name reaches it. -/
theorem readPairs_assignment {text : Text} (htext : '=' ∉ text) (hink : EndsInk text) :
    readPairs (text ++ (a.render ++ rest)) = readPairs (text ++ a.render) ++ readPairs rest := by
  have hhead : ∀ tail, ∀ c ∈ (a.render ++ tail).head?, isNameTail c = false :=
    fun tail c hc => isNameTail_eq_false (ha.isNameChar_head? tail c hc)
  induction hlength : text.length using Nat.strong_induction_on generalizing text with
  | _ n ih =>
      cases text with
      | nil => exact readPairs_unnamed ha hvalue hrest
      | cons c cs =>
          have hnext := name?_append_of_ne_nil (List.cons_ne_nil c cs) (hhead rest)
          have hnext_nil := name?_append_of_ne_nil (List.cons_ne_nil c cs) (hhead [])
          rw [List.append_nil] at hnext_nil
          cases hname : name? (c :: cs) with
          | none =>
              rw [hname, Option.map_none] at hnext hnext_nil
              have hcs : '=' ∉ cs := fun hmem => htext (List.mem_cons_of_mem c hmem)
              have hbehind : EndsInk cs := by
                rw [← List.singleton_append] at hink
                exact hink.of_append
              calc readPairs (c :: (cs ++ (a.render ++ rest)))
                  = readPairs (cs ++ (a.render ++ rest)) := readPairs_skip hnext
                _ = readPairs (cs ++ a.render) ++ readPairs rest :=
                    ih cs.length (by simp [← hlength]) hcs hbehind rfl
                _ = readPairs (c :: (cs ++ a.render)) ++ readPairs rest :=
                    congrArg (· ++ _) (readPairs_skip hnext_nil).symm
          | some found =>
              obtain ⟨name, after⟩ := found
              obtain ⟨hparts, hfull⟩ := name?_sound hname
              have hpos := List.length_pos_iff.mpr (isFullName_ne_nil hfull)
              rw [hname, Option.map_some] at hnext hnext_nil
              rw [hparts] at htext hink hlength
              have hafter : '=' ∉ after := fun hmem => htext (List.mem_append_right _ hmem)
              by_cases hne : after = []
              · subst hne
                have hwhole : assignment? (a.render ++ []) = some (a, []) :=
                  assignment?_render ha fun _ => by simp
                rw [List.append_nil] at hwhole
                rw [readPairs_assigned hnext (assignment?_render ha hstops),
                  readPairs_assigned hnext_nil hwhole]
                rfl
              · have hink' : EndsInk after := hink.of_append
                have hopen : ∀ tail, assignment? (after ++ tail) = none := by
                  intro tail
                  apply assignment?_append_eq_none hafter
                  intro hall
                  obtain ⟨d, hd, hblank⟩ := hink'.not_isBlank hne
                  exact absurd (hall d hd) (by simp [hblank])
                rw [readPairs_name hnext (hopen _), readPairs_name hnext_nil (hopen _),
                  ih after.length (by rw [← hlength, List.length_append]; omega) hafter hink' rfl]
                rfl

end Assigned

/-- Attributes that can be told apart are read one by one. -/
theorem Written.Apart.readPairs_eq {w : Written} (h : w.Apart) (hw : w.Sound) {rest : Text}
    (hstops : w.Stops rest) (hrest : Breaks rest) :
    readPairs (w.render ++ rest) = readPairs w.render ++ readPairs rest := by
  by_cases hfull : isFullName w.name = true
  · have hwhole := readPairs_written hw hfull w.stops_nil
    rw [List.append_nil] at hwhole
    rw [readPairs_written hw hfull hstops, hwhole]
    rfl
  · have hvalue := h.resolve_left hfull
    have hname : '=' ∉ w.blanks ++ w.name := by
      rw [List.mem_append, not_or]
      constructor
      · exact fun hmem => absurd (hw.blanks _ hmem) (by decide)
      · exact fun hmem => absurd (hw.name _ hmem) (by decide)
    have hink : EndsInk (w.blanks ++ w.name) :=
      endsInk_append hw.name_ne (endsInk_of_ink fun c hc => (isNameChar_iff.mp (hw.name c hc)).1)
    cases hassign : w.assignment with
    | none =>
        have hrender : w.render = w.blanks ++ w.name := by simp [Written.render, hassign]
        rw [hrender]
        exact readPairs_append hname hrest
    | some a =>
        have hrender : w.render = w.blanks ++ w.name ++ a.render := by
          simp [Written.render, hassign]
        rw [hrender, List.append_assoc]
        exact readPairs_assignment (hw.assignment a hassign) (hvalue a hassign)
          (hstops.value a hassign) hrest hname hink

theorem readPairs_flatMap {ws : List Written} (hws : ∀ w ∈ ws, w.Sound)
    (hapart : ∀ w ∈ ws, w.Apart) :
    readPairs (ws.flatMap Written.render) = ws.flatMap fun w => readPairs w.render := by
  induction ws with
  | nil => rfl
  | cons w ws ih =>
      rw [List.forall_mem_cons] at hws hapart
      have hstops : w.Stops (ws.flatMap Written.render) := by
        simpa using stops_flatMap hws.2 fun v _ => v.stops_nil
      rw [List.flatMap_cons, hapart.1.readPairs_eq hws.1 hstops (breaks_flatMap hws.2),
        ih hws.2 hapart.2, List.flatMap_cons]

end MarkupIds.Sfc
