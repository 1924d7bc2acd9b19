import MarkupIds.Proofs.Sfc.Growth
import MarkupIds.Proofs.Sfc.Parts
import MarkupIds.Sfc.Reviser

/-!
# Setting and removing an attribute of a tag

An edit of a line finds its tag by the column and rewrites the tag as a value: the first attribute
of the name takes the new value, or a new attribute comes in behind the others. So the laws of
updates hold for lines because they hold for lists of attributes.
-/

namespace MarkupIds

namespace Text

theorem not_mem_of_cut?_eq_none {c : Char} {t : Text} (h : cut? [c] t = none) : c ∉ t := by
  induction t with
  | nil => simp
  | cons d t ih =>
      by_cases hsame : c = d
      · simp [cut?, after?, hsame] at h
      · have hrest : cut? [c] t = none := by simpa [cut?, after?, hsame] using h
        simpa [hsame] using ih hrest

theorem not_mem_of_cut?_eq_some {c : Char} {t before rest : Text}
    (h : cut? [c] t = some (before, rest)) : c ∉ before := by
  induction t generalizing before with
  | nil => simp [cut?] at h
  | cons d t ih =>
      by_cases hsame : c = d
      · obtain ⟨rfl, rfl⟩ : [] = before ∧ t = rest := by simpa [cut?, after?, hsame] using h
        simp
      · have hnone : after? [c] (d :: t) = none := by simp [after?, hsame]
        rw [cut?, hnone] at h
        obtain ⟨⟨front, tail⟩, hcut, hparts⟩ := Option.map_eq_some_iff.mp h
        obtain ⟨rfl, rfl⟩ := Prod.mk.inj hparts
        simpa [hsame] using ih hcut

/-- A character that is replaced everywhere is gone, unless the replacement has it. -/
theorem not_mem_replace {c : Char} {new : Text} (hnew : c ∉ new) (t : Text) :
    c ∉ replace [c] new t := by
  have hcuts : ∀ fuel (t : Text), t.length < fuel → c ∉ replaceCuts [c] new fuel t := by
    intro fuel
    induction fuel with
    | zero => exact fun t hfuel => absurd hfuel (Nat.not_lt_zero _)
    | succ fuel ih =>
        intro t hfuel
        rw [replaceCuts]
        split
        · rename_i hcut
          exact not_mem_of_cut?_eq_none hcut
        · rename_i before rest hcut
          have hlength := congrArg List.length (eq_append_of_cut? hcut)
          simp only [List.length_append, List.length_singleton] at hlength
          simp only [List.mem_append, not_or]
          exact ⟨⟨not_mem_of_cut?_eq_some hcut, hnew⟩, ih rest (by omega)⟩
  simpa [replace] using hcuts (t.length + 1) t (Nat.lt_succ_self _)

end Text

namespace Sfc

/-! ## Attributes of a list -/

/-- A value as it stands between double quotes. -/
def quoted (value : Text) : Text :=
  Text.replace ['"'] "&quot;".toList value

theorem quote_not_mem_quoted (value : Text) : '"' ∉ quoted value :=
  Text.not_mem_replace (by decide) value

theorem renderAttribute_eq_added (name value : Text) :
    ' ' :: renderAttribute name value = (added name (quoted value)).render := by
  simp [renderAttribute, added_render, quoted]

/-- Gives a name a value: the first attribute of that name takes it and keeps one of its blanks,
or else a new one comes in behind the others. -/
def setWritten (name value : Text) : List Written → List Written
  | [] => [added name value]
  | w :: ws =>
    if w.name = name then { blanks := w.blanks.take 1, name, assignment := some { value } } :: ws
    else w :: setWritten name value ws

theorem setWritten_of_missing {name : Text} {ws : List Written} (h : ∀ w ∈ ws, w.name ≠ name)
    (value : Text) : setWritten name value ws = ws ++ [added name value] := by
  induction ws with
  | nil => rfl
  | cons w ws ih =>
      rw [List.forall_mem_cons] at h
      rw [setWritten, if_neg h.1, ih h.2]
      rfl

theorem setWritten_append_cons {name : Text} {front : List Written}
    (h : ∀ v ∈ front, v.name ≠ name) {w : Written} (hw : w.name = name) (back : List Written)
    (value : Text) :
    setWritten name value (front ++ w :: back) =
      front ++ { blanks := w.blanks.take 1, name, assignment := some { value } } :: back := by
  induction front with
  | nil => rw [List.nil_append, setWritten, if_pos hw, List.nil_append]
  | cons v front ih =>
      rw [List.forall_mem_cons] at h
      rw [List.cons_append, setWritten, if_neg h.1, ih h.2]
      rfl

/-- A list has no attribute of a name, or there is a first one. -/
theorem exists_first_or_missing (name : Text) (ws : List Written) :
    (∀ w ∈ ws, w.name ≠ name) ∨
      ∃ front w back, ws = front ++ w :: back ∧ (∀ v ∈ front, v.name ≠ name) ∧
        w.name = name := by
  by_cases hany : ∃ w ∈ ws, w.name = name
  · obtain ⟨v, hv, hname⟩ := hany
    obtain ⟨w, front, back, hfront, hw, hws, _⟩ :=
      List.exists_of_eraseP (p := (·.name == name)) hv (by simpa using hname)
    exact .inr ⟨front, w, back, hws, by simpa using hfront, by simpa using hw⟩
  · exact .inl fun w hw hname => hany ⟨w, hw, hname⟩

/-- What is set stands behind one blank, in place of the first attribute of that name or behind
all the others. -/
theorem exists_setWritten (name : Text) {ws : List Written} (hws : ∀ w ∈ ws, w.Sound) :
    ∃ front back blank, ws = front ++ ((ws.find? (·.name == name)).toList ++ back) ∧
      back = (ws.dropWhile (·.name != name)).tail ∧ Text.isBlank blank = true ∧
      ∀ value, setWritten name value ws = front ++ spelled blank name value :: back := by
  rcases exists_first_or_missing name ws with hnone | ⟨front, w, back, rfl, hfront, hw⟩
  · have hfind : ws.find? (·.name == name) = none := by simpa using hnone
    have hdrop : ws.dropWhile (·.name != name) = [] := by simpa using hnone
    refine ⟨ws, [], ' ', by simp [hfind], by simp [hdrop], by decide, ?_⟩
    exact fun value => setWritten_of_missing hnone value
  · have hfind : front.find? (·.name == name) = none := by simpa using hfront
    have hdrop : (front ++ w :: back).dropWhile (·.name != name) = w :: back := by
      rw [List.dropWhile_append_of_pos (by simpa using hfront)]
      simp [hw]
    have hwsound := hws w (by simp)
    obtain ⟨blank, blanks, hblanks⟩ := List.exists_cons_of_ne_nil hwsound.blanks_ne
    refine ⟨front, back, blank, by simp [hfind, hw], by simp [hdrop],
      hwsound.blanks blank (by simp [hblanks]), ?_⟩
    intro value
    rw [setWritten_append_cons hfront hw, hblanks]
    rfl

theorem setWritten_setWritten (name value value' : Text) (ws : List Written) :
    setWritten name value' (setWritten name value ws) = setWritten name value' ws := by
  induction ws with
  | nil => simp [setWritten, added]
  | cons w ws ih =>
      by_cases hname : w.name = name
      · simp [setWritten, hname, List.take_take]
      · simp [setWritten, hname, ih]

theorem eraseP_setWritten {name : Text} {ws : List Written} (h : ∀ w ∈ ws, w.name ≠ name)
    (value : Text) : (setWritten name value ws).eraseP (·.name == name) = ws := by
  have hnone : ∀ w ∈ ws, ¬ (w.name == name) = true := by simpa using h
  rw [setWritten_of_missing h, List.eraseP_append_right _ hnone]
  simp [added]

theorem setWritten_sound {name value : Text} (hne : name ≠ [])
    (hname : ∀ c ∈ name, isNameChar c = true) (hvalue : '"' ∉ value) {ws : List Written}
    (hws : ∀ w ∈ ws, w.Sound) : ∀ w ∈ setWritten name value ws, w.Sound := by
  have hassigned : ∀ blanks : Text, blanks ≠ [] → (∀ c ∈ blanks, Text.isBlank c = true) →
      ({ blanks, name, assignment := some { value } } : Written).Sound := by
    intro blanks hsome hblanks
    refine ⟨hsome, hblanks, hne, hname, ?_⟩
    intro a ha
    obtain rfl : ({ value } : Assignment) = a := Option.some.inj ha
    exact ⟨by simp, by simp, hvalue⟩
  induction ws with
  | nil => simpa [setWritten, added] using hassigned [' '] (by simp) (by simp; decide)
  | cons w ws ih =>
      rw [List.forall_mem_cons] at hws
      rw [setWritten]
      split
      · refine List.forall_mem_cons.mpr ⟨hassigned _ ?_ ?_, hws.2⟩
        · simp [hws.1.blanks_ne]
        · exact fun c hc => hws.1.blanks c (List.mem_of_mem_take hc)
      · exact List.forall_mem_cons.mpr ⟨hws.1, ih hws.2⟩

/-- The last attribute stays the last one, or has its value in double quotes. -/
theorem getLast?_setWritten {name value : Text} {ws : List Written} {w : Written}
    (h : w ∈ (setWritten name value ws).getLast?) :
    w ∈ ws.getLast? ∨ w.assignment = some { value } := by
  rcases exists_first_or_missing name ws with hnone | ⟨front, v, back, rfl, hfront, hv⟩
  · rw [setWritten_of_missing hnone] at h
    obtain rfl : added name value = w := by simpa using h
    exact .inr rfl
  · rw [setWritten_append_cons hfront hv] at h
    cases back with
    | nil =>
        obtain rfl := Option.some.inj ((List.getLast?_concat ..).symm.trans h)
        exact .inr rfl
    | cons u back =>
        left
        simpa [List.getLast?_append, List.getLast?_cons] using h

/-! ## Looking for an attribute -/

theorem findWritten?_append_cons {front : List Written} (hfront : ∀ v ∈ front, v.Sound)
    {w : Written} (hw : w.Sound) {back : List Written} (hback : ∀ v ∈ back, v.Sound)
    {blanks : Text} (hblanks : ∀ c ∈ blanks, Text.isBlank c = true) {name : Text}
    (hother : ∀ v ∈ front, v.name ≠ name) (hname : w.name = name) {fuel : ℕ}
    (hfuel : front.length < fuel) :
    findWritten? name fuel ((front ++ w :: back).flatMap Written.render ++ blanks) =
      some (front.flatMap Written.render, w, back.flatMap Written.render ++ blanks) := by
  have hstops : ∀ v : Written, v.Stops (back.flatMap Written.render ++ blanks) :=
    fun v => stops_flatMap hback fun u _ => u.stops_blanks hblanks
  induction front generalizing fuel with
  | nil =>
      obtain ⟨fuel, rfl⟩ := Nat.exists_eq_succ_of_ne_zero (Nat.ne_of_gt hfuel)
      rw [List.nil_append, List.flatMap_cons, List.append_assoc, findWritten?.eq_def]
      simp only [written?_render hw (hstops w), hname, beq_self_eq_true, if_true, List.flatMap_nil]
  | cons v front ih =>
      rw [List.forall_mem_cons] at hfront hother
      obtain ⟨fuel, rfl⟩ := Nat.exists_eq_succ_of_ne_zero (Nat.ne_of_gt (Nat.zero_lt_of_lt hfuel))
      have hnext : v.Stops ((front ++ w :: back).flatMap Written.render ++ blanks) := by
        refine stops_flatMap ?_ fun u _ => u.stops_blanks hblanks
        intro u hu
        rcases List.mem_append.mp hu with hu | hu
        · exact hfront.2 u hu
        · exact List.forall_mem_cons.mpr ⟨hw, hback⟩ u hu
      rw [List.cons_append, List.flatMap_cons, List.append_assoc, findWritten?.eq_def]
      simp only [written?_render hfront.1 hnext]
      rw [if_neg (by simpa using hother.1),
        ih hfront.2 hother.2 (by simpa using hfuel), Option.map_some, List.flatMap_cons]

/-! ## Tags -/

namespace OpenTag

/-- The tag up to its end, without its slash. -/
def inside (t : OpenTag) : Text :=
  t.opening ++ t.blanks

def slash (t : OpenTag) : Text :=
  if t.selfClosing then ['/'] else []

theorem render_eq_inside (t : OpenTag) (after : Text) :
    t.render ++ after = t.inside ++ (t.slash ++ '>' :: after) := by
  rw [render_eq_opening, closing, inside, slash]
  cases t.selfClosing <;> simp

theorem take_inside (t : OpenTag) (after : Text) :
    (t.render ++ after).take
      ((t.render ++ after).length - after.length - 1 - t.slash.length) = t.inside := by
  rw [render_eq_inside]
  apply List.take_left'
  simp only [List.length_append, List.length_cons]
  omega

/-- The tag with a value for an attribute. -/
def set (t : OpenTag) (name value : Text) : OpenTag :=
  { t with attributes := setWritten name (quoted value) t.attributes }

/-- The tag without the first attribute of a name. -/
def erase (t : OpenTag) (name : Text) : OpenTag :=
  { t with attributes := t.attributes.eraseP (·.name == name) }

theorem set_set (t : OpenTag) (name value value' : Text) :
    (t.set name value).set name value' = t.set name value' := by
  simp [set, setWritten_setWritten]

theorem erase_set {t : OpenTag} {name : Text} (h : ∀ w ∈ t.attributes, w.name ≠ name)
    (value : Text) : (t.set name value).erase name = t := by
  simp [set, erase, eraseP_setWritten h]

theorem any_set (t : OpenTag) (name value : Text) :
    (t.set name value).attributes.any (·.name == name) = true := by
  rcases exists_first_or_missing name t.attributes with hnone | ⟨front, w, back, hws, hfront, hw⟩
  · simp [set, setWritten_of_missing hnone, added]
  · simp [set, hws, setWritten_append_cons hfront hw]

theorem Sound.set {t : OpenTag} (h : t.Sound) {name : Text} (hne : name ≠ [])
    (hname : ∀ c ∈ name, isNameChar c = true) (value : Text) : (t.set name value).Sound := by
  refine ⟨h.name, setWritten_sound hne hname (quote_not_mem_quoted value) h.attributes, h.blanks, ?_⟩
  intro hself hblanks w hw a ha
  rcases getLast?_setWritten hw with hlast | hassigned
  · exact h.slash hself hblanks w hlast a ha
  · obtain rfl := Option.some.inj (hassigned.symm.trans ha)
    exact fun hbare => nomatch hbare

theorem Sound.follows {t : OpenTag} (h : t.Sound) (rest : Text) :
    Follows (t.attributeText ++ (t.closing ++ rest)) :=
  follows_flatMap h.attributes (follows_closing h rest)

end OpenTag

/-! ## Finding the tag -/

theorem afterTag?_append {tag rest : Text} (h : Follows rest) :
    (afterTag? tag ('<' :: (tag ++ rest))).isSome = true := by
  have hafter : Text.after? ('<' :: tag) ('<' :: (tag ++ rest)) = some rest :=
    Text.after?_self_append ('<' :: tag) rest
  rw [afterTag?, hafter, Option.isSome_filter, Option.any_some]
  cases hhead : rest.head? with
  | none => rfl
  | some c => rcases h c hhead with hblank | rfl | rfl <;> simp [*]

/-- The opening of a tag is found at its column. -/
theorem locateTag?_append {tag front rest : Text} {column : ℤ}
    (hcolumn : (column - 1).toNat = front.length) (hrest : Follows rest) :
    locateTag? tag column (front ++ '<' :: (tag ++ rest)) =
      some (front, '<' :: (tag ++ rest)) := by
  rw [locateTag?]
  simp only [hcolumn, List.drop_left, List.take_left, afterTag?_append hrest, if_true]

theorem locateTag?_render {t : OpenTag} (ht : t.Sound) {front : Text} {column : ℤ}
    (hcolumn : (column - 1).toNat = front.length) (rest : Text) :
    locateTag? t.name column (front ++ (t.render ++ rest)) = some (front, t.render ++ rest) := by
  have hparts : t.render ++ rest = '<' :: (t.name ++ (t.attributeText ++ (t.closing ++ rest))) := by
    simp [OpenTag.render_eq]
  rw [hparts]
  exact locateTag?_append hcolumn (ht.follows rest)

/-! ## Edits of a line -/

theorem setAttribute_eq {t : OpenTag} (ht : t.Sound) (name value : Text) :
    setAttribute name value ('<' :: t.name) (t.attributeText ++ t.blanks) t.slash =
      (t.set name value).inside ++ t.slash := by
  rcases exists_first_or_missing name t.attributes with hnone | ⟨front, w, back, hws, hfront, hw⟩
  · have hwhole : ('<' :: t.name) ++ (t.attributeText ++ t.blanks) = t.opening ++ t.blanks := by
      simp [OpenTag.opening]
    have htrim : Text.trimEnd (t.opening ++ t.blanks) = t.opening := by
      rw [Text.trimEnd, Text.dropTailWhile_append_of_all ht.blanks]
      exact Text.dropTailWhile_eq_self ht.endsInk_opening
    have hmiss : findWritten? name ((t.attributeText ++ t.blanks).length + 1)
        (t.attributeText ++ t.blanks) = none :=
      findWritten?_eq_none ht.attributes ht.blanks hnone _
    rw [setAttribute]
    simp only [hmiss, hwhole, htrim, List.drop_left, renderAttribute_eq_added]
    simp [OpenTag.inside, OpenTag.opening, OpenTag.set, OpenTag.attributeText,
      setWritten_of_missing hnone]
  · have hsound : ∀ v ∈ front ++ w :: back, v.Sound := by
      rw [← hws]
      exact ht.attributes
    rw [List.forall_mem_append, List.forall_mem_cons] at hsound
    obtain ⟨hfronts, hwsound, hbacks⟩ := hsound
    have hfuel : front.length < (t.attributeText ++ t.blanks).length + 1 := by
      have hlength := length_le_length_flatMap ht.attributes
      rw [hws] at hlength
      simp only [List.length_append, List.length_cons, OpenTag.attributeText, hws] at hlength ⊢
      omega
    have hfound := findWritten?_append_cons hfronts hwsound hbacks ht.blanks hfront hw hfuel
    rw [← hws] at hfound
    rw [setAttribute]
    simp only [OpenTag.attributeText] at hfound ⊢
    simp only [hfound]
    simp [OpenTag.inside, OpenTag.opening, OpenTag.set, OpenTag.attributeText, hws,
      setWritten_append_cons hfront hw, Written.render, renderAttribute, Assignment.render, quoted]

theorem removeAttribute?_eq {t : OpenTag} (ht : t.Sound) (name : Text) :
    removeAttribute? name ('<' :: t.name) (t.attributeText ++ t.blanks) t.slash =
      if t.attributes.any (·.name == name) then some ((t.erase name).inside ++ t.slash)
      else none := by
  rcases exists_first_or_missing name t.attributes with hnone | ⟨front, w, back, hws, hfront, hw⟩
  · have hany : t.attributes.any (·.name == name) = false := by simpa using hnone
    have hmiss : findWritten? name ((t.attributeText ++ t.blanks).length + 1)
        (t.attributeText ++ t.blanks) = none :=
      findWritten?_eq_none ht.attributes ht.blanks hnone _
    rw [removeAttribute?, hmiss, hany]
    rfl
  · have hsound : ∀ v ∈ front ++ w :: back, v.Sound := by
      rw [← hws]
      exact ht.attributes
    rw [List.forall_mem_append, List.forall_mem_cons] at hsound
    obtain ⟨hfronts, hwsound, hbacks⟩ := hsound
    have hfuel : front.length < (t.attributeText ++ t.blanks).length + 1 := by
      have hlength := length_le_length_flatMap ht.attributes
      rw [hws] at hlength
      simp only [List.length_append, List.length_cons, OpenTag.attributeText, hws] at hlength ⊢
      omega
    have hfound := findWritten?_append_cons hfronts hwsound hbacks ht.blanks hfront hw hfuel
    have hnone : ∀ v ∈ front, ¬ (v.name == name) = true := by simpa using hfront
    rw [← hws] at hfound
    rw [removeAttribute?]
    simp only [OpenTag.attributeText] at hfound ⊢
    simp only [hfound]
    simp [OpenTag.inside, OpenTag.opening, OpenTag.erase, OpenTag.attributeText, hws, hw,
      List.eraseP_append_right _ hnone]

/-- An edit that finds its tag sets the attribute in it, or erases it if it has one. -/
theorem editLine_render {t : OpenTag} (ht : t.Sound) {e : Edit} (htag : e.element.tag = t.name)
    {front : Text} (hcolumn : (e.position.column - 1).toNat = front.length) (rest : Text) :
    editLine (front ++ (t.render ++ rest)) e =
      if e.kind = .remove then
        if t.attributes.any (·.name == e.name) then .ok (front ++ ((t.erase e.name).render ++ rest))
        else .error (.noAttribute e.name)
      else .ok (front ++ ((t.set e.name e.value).render ++ rest)) := by
  have hslash : (if t.selfClosing = true then ['/'] else []) = t.slash := rfl
  have hinside : t.inside = ('<' :: t.name) ++ (t.attributeText ++ t.blanks) := by
    simp [OpenTag.inside, OpenTag.opening]
  have hlength : t.name.length + 1 = ('<' :: t.name).length := rfl
  rw [editLine]
  simp only [htag, locateTag?_render ht hcolumn, openTag?_render ht, hslash, t.take_inside,
    hinside, hlength, List.take_left, List.drop_left]
  have hset : (t.set e.name e.value).render ++ rest =
      setAttribute e.name e.value ('<' :: t.name) (t.attributeText ++ t.blanks) t.slash ++
        '>' :: rest := by
    rw [OpenTag.render_eq_inside, setAttribute_eq ht, List.append_assoc]
    rfl
  have herase : (t.erase e.name).render ++ rest =
      (t.erase e.name).inside ++ t.slash ++ '>' :: rest := by
    rw [OpenTag.render_eq_inside, List.append_assoc]
    rfl
  cases hkind : e.kind with
  | add => simp [hset]
  | modify => simp [hset]
  | remove =>
      simp only [removeAttribute?_eq ht, herase, if_true]
      cases t.attributes.any (·.name == e.name) <;> simp

/-! ## Update laws -/

/-- A tag's name stands at a column of a line and ends there. -/
def StandsAt (tag : Text) (column : ℤ) (line : Text) : Prop :=
  ∃ before rest, line = before ++ '<' :: (tag ++ rest) ∧
    before.length = (column - 1).toNat ∧ Follows rest

theorem isTagName_of_sound {t : OpenTag} (h : t.Sound) : isTagName t.name = true := by
  obtain ⟨c, cs, hname, hletter, htag⟩ := h.name
  rw [hname, isTagName, Bool.and_eq_true, List.all_eq_true]
  exact ⟨hletter, htag⟩

theorem Follows.isTagChar_head? {rest : Text} (h : Follows rest) :
    ∀ c ∈ rest.head?, isTagChar c = false := by
  intro c hc
  by_contra htag
  have hchar := isNameChar_iff.mp (isNameChar_of_isTagChar (by simpa using htag))
  rcases h c hc with hblank | rfl | rfl
  · exact absurd hblank (by simp [hchar.1])
  · exact hchar.2.2.2.1 rfl
  · exact hchar.2.2.2.2.1 rfl

/-- Where a tag's name ends, it is the whole run of its characters. -/
theorem takeWhile_isTagChar {tag rest : Text} (htag : isTagName tag = true) (h : Follows rest) :
    (tag ++ rest).takeWhile isTagChar = tag := by
  apply Text.takeWhile_append_stop _ h.isTagChar_head?
  cases tag with
  | nil => exact Bool.noConfusion htag
  | cons c cs =>
      rw [isTagName, Bool.and_eq_true, List.all_eq_true] at htag
      refine List.forall_mem_cons.mpr ⟨?_, htag.2⟩
      exact isTagChar_of_isAsciiLetter htag.1

/-- An edit that succeeds where a tag's name stands has read a tag of that name there. -/
theorem exists_openTag_of_editLine {line line' : Text} {e : Edit}
    (htag : isTagName e.element.tag = true)
    (hstands : StandsAt e.element.tag e.position.column line) (h : editLine line e = .ok line') :
    ∃ before after, ∃ t : OpenTag, t.Sound ∧ e.element.tag = t.name ∧
      (e.position.column - 1).toNat = before.length ∧ line = before ++ (t.render ++ after) := by
  obtain ⟨before, rest, rfl, hcolumn, hrest⟩ := hstands
  rw [editLine] at h
  simp only [locateTag?_append hcolumn.symm hrest] at h
  split at h
  · exact nomatch h
  · rename_i t after hread
    obtain ⟨ht, hparts⟩ := openTag?_sound hread
    refine ⟨before, after, t, ht, ?_, hcolumn.symm, by rw [hparts]⟩
    rw [OpenTag.render_eq, List.cons_append, List.cons.injEq] at hparts
    calc e.element.tag = (e.element.tag ++ rest).takeWhile isTagChar :=
          (takeWhile_isTagChar htag hrest).symm
      _ = (t.name ++ (t.attributeText ++ (t.closing ++ after))).takeWhile isTagChar := by
          rw [hparts.2]
          simp
      _ = t.name := takeWhile_isTagChar (isTagName_of_sound ht) (ht.follows after)

/-- Setting an attribute of a tag obeys the laws of updates. A later value takes the place of an
earlier one; removing an attribute that was not there gives back the line; what stands in front of
the tag and from its end on is kept. -/
theorem editLine_update {line line' : Text} {e : Edit} (hkind : e.kind ≠ .remove)
    (htag : isTagName e.element.tag = true)
    (hstands : StandsAt e.element.tag e.position.column line)
    (hne : e.name ≠ []) (hname : ∀ c ∈ e.name, isNameChar c = true)
    (h : editLine line e = .ok line') :
    (∀ kind ≠ .remove, ∀ value, ∃ line'', editLine line { e with kind, value } = .ok line'' ∧
        editLine line' { e with kind, value } = .ok line'') ∧
      (∀ value, editLine line { e with kind := .remove, value } = .error (.noAttribute e.name) →
        editLine line' { e with kind := .remove, value } = .ok line) ∧
      ∃ before t t' after, line = before ++ (t.render ++ after) ∧
        line' = before ++ (t'.render ++ after) ∧ before.length = (e.position.column - 1).toNat ∧
        t.name = e.element.tag ∧ openTag? (t.render ++ after) = some (t, after) ∧
        openTag? (t'.render ++ after) = some (t', after) := by
  obtain ⟨before, after, t, ht, htname, hcolumn, rfl⟩ := exists_openTag_of_editLine htag hstands h
  have hnew : (t.set e.name e.value).Sound := ht.set hne hname e.value
  have hold := fun kind value =>
    editLine_render ht (e := { e with kind, value }) htname hcolumn after
  have hagain := fun kind value =>
    editLine_render hnew (e := { e with kind, value }) htname hcolumn after
  rw [editLine_render ht htname hcolumn, if_neg hkind] at h
  obtain rfl := Except.ok.inj h
  refine ⟨?_, ?_, before, t, t.set e.name e.value, after, rfl, rfl, hcolumn.symm, htname.symm,
    openTag?_render ht after, openTag?_render hnew after⟩
  · intro kind hkind' value
    refine ⟨before ++ ((t.set e.name value).render ++ after), ?_, ?_⟩
    · rw [hold, if_neg hkind']
    · rw [hagain, if_neg hkind', OpenTag.set_set]
  · intro value hnone
    rw [hold, if_pos rfl] at hnone
    have hmissing : ∀ w ∈ t.attributes, w.name ≠ e.name := by
      intro w hw heq
      rw [if_pos (List.any_eq_true.mpr ⟨w, hw, by simpa using heq⟩)] at hnone
      exact nomatch hnone
    rw [hagain, if_pos rfl, if_pos (t.any_set e.name e.value), OpenTag.erase_set hmissing]

/-- A tag with a bare value that ends in a slash, blanks in front of its end, and a quote in the
new value. -/
theorem editLine_update_bare :
    let line := "<b><a x=y/  ></a>".toList
    let e : Edit :=
      { kind := .add, element := { tag := ['a'] }, name := ['z'], value := "1\"2".toList
        position := ⟨1, 4, 3⟩ }
    editLine line e = .ok "<b><a x=y/ z=\"1&quot;2\"  ></a>".toList ∧
      editLine "<b><a x=y/ z=\"1&quot;2\"  ></a>".toList { e with kind := .remove } =
        .ok line := by
  intro line e
  have hset : editLine line e = .ok "<b><a x=y/ z=\"1&quot;2\"  ></a>".toList := by decide
  have hstands : StandsAt ['a'] 4 line :=
    ⟨"<b>".toList, " x=y/  ></a>".toList, by decide, by decide, by simp [Follows]; decide⟩
  have hname : ∀ c ∈ ['z'], isNameChar c = true := List.forall_mem_singleton.mpr (by decide)
  have hlaws := editLine_update (by decide) (by decide) hstands (by decide) hname hset
  exact ⟨hset, hlaws.2.1 _ (by decide)⟩

end Sfc

end MarkupIds
