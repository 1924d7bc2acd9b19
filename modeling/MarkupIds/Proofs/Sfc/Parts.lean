import MarkupIds.Proofs.Lists
import MarkupIds.Proofs.Sfc.Growth

/-!
# Reading a template inverts writing it

A template line is written out of parts: text, closing tags and opening tags with their
attributes. The elements that are read are exactly the opening tags among the parts that are not
self-closing, with their attributes, their places and the text they enclose.
-/

namespace MarkupIds

/-! ## Attributes that are set one after the other -/

namespace Attributes

/-- A value given to one of some names, or to a new one behind them. -/
theorem set_map {names : List Text} (hnames : names.Nodup) (value : Text → Text) (name new : Text) :
    set (names.map fun n => (n, value n)) name new =
      (if name ∈ names then names else names ++ [name]).map
        fun n => (n, if n = name then new else value n) := by
  induction names with
  | nil => simp [set]
  | cons n names ih =>
      obtain ⟨hn, hnames⟩ := List.nodup_cons.mp hnames
      rw [List.map_cons, set]
      by_cases hname : n = name
      · subst hname
        have hothers : ∀ m ∈ names, m ≠ n := by
          rintro m hm rfl
          exact hn hm
        simpa using fun m hm heq => absurd heq (hothers m hm)
      · rw [if_neg (by simpa using hname), ih hnames]
        by_cases hin : name ∈ names
        · simp [hin, hname]
        · simp [hin, hname, Ne.symm hname]

end Attributes

namespace Sfc

/-- The value of the last attribute of a name; without a value it is empty. -/
def lastValue (ws : List Written) (name : Text) : Text :=
  ((ws.reverse.find? (·.name == name)).map (·.pair.2)).getD []

/-- The names in order of first appearance, each with its last value. -/
def lastValues (ws : List Written) : Attributes :=
  (ws.map (·.name)).eraseDups.map fun name => (name, lastValue ws name)

theorem lastValue_concat (ws : List Written) (w : Written) (name : Text) :
    lastValue (ws ++ [w]) name = if name = w.name then w.pair.2 else lastValue ws name := by
  by_cases hname : name = w.name
  · simp [lastValue, hname]
  · have hother : (w.name == name) = false := by simpa using Ne.symm hname
    simp [lastValue, hname, hother]

theorem readAttributes_eq_lastValues {ws : List Written} (hws : ∀ w ∈ ws, w.Sound)
    (hnames : ∀ w ∈ ws, isFullName w.name = true) :
    readAttributes (ws.flatMap Written.render) = lastValues ws := by
  rw [readAttributes_flatMap hws hnames]
  clear hws hnames
  -- Induction from the end of the list, where each attribute is set.
  induction ws using List.reverseRecOn with
  | nil => rfl
  | append_singleton ws w ih =>
      rw [List.foldl_append, ih, List.foldl_cons, List.foldl_nil, lastValues, lastValues,
        Attributes.set_map (nodup_eraseDups _), List.map_append, List.map_singleton,
        eraseDups_concat]
      simp only [List.mem_eraseDups, lastValue_concat]
      rfl

/-! ## Parts of a line -/

/-- A part of a template line. -/
inductive Part where
  | text (t : Text)
  | closing (name : Text)
  | opening (t : OpenTag)
deriving DecidableEq, Repr

def Part.render : Part → Text
  | .text t => t
  | .closing name => '<' :: '/' :: (name ++ ['>'])
  | .opening t => t.render

def renderLine (parts : List Part) : Text :=
  parts.flatMap Part.render

@[simp] theorem renderLine_cons (p : Part) (parts : List Part) :
    renderLine (p :: parts) = p.render ++ renderLine parts := rfl

/-- A letter, then letters, digits and hyphens. -/
def isTagName : Text → Bool
  | [] => false
  | c :: cs => Text.isAsciiLetter c && cs.all isTagChar

/-- Blanks, a full name, and perhaps a value that its quotes can hold. -/
structure Written.Proper (w : Written) : Prop where
  blanks_ne : w.blanks ≠ []
  blanks : ∀ c ∈ w.blanks, Text.isBlank c = true
  name : isFullName w.name = true
  assignment : ∀ a ∈ w.assignment, a.Sound

/-- A tag with a blank in front of its slash, if it has one. -/
structure OpenTag.Proper (t : OpenTag) : Prop where
  name : isTagName t.name = true
  attributes : ∀ w ∈ t.attributes, w.Proper
  blanks : ∀ c ∈ t.blanks, Text.isBlank c = true
  slash : t.selfClosing = true → t.blanks ≠ []

def Part.Proper : Part → Prop
  | .text t => '<' ∉ t
  | .closing name => isTagName name = true
  | .opening t => t.Proper

instance (quoting : Quoting) (value : Text) : Decidable (quoting.Holds value) :=
  match quoting with
  | .double => inferInstanceAs (Decidable ('"' ∉ value))
  | .single => inferInstanceAs (Decidable ('\'' ∉ value))
  | .bare =>
    decidable_of_iff (value ≠ [] ∧ value.all isBareChar = true)
      (and_congr_right fun _ => List.all_eq_true)

instance (a : Assignment) : Decidable a.Sound :=
  decidable_of_iff
    (a.blanksBefore.all Text.isBlank = true ∧ a.blanksAfter.all Text.isBlank = true ∧
      a.quoting.Holds a.value)
    ⟨fun h => ⟨List.all_eq_true.mp h.1, List.all_eq_true.mp h.2.1, h.2.2⟩,
      fun h => ⟨List.all_eq_true.mpr h.before, List.all_eq_true.mpr h.after, h.value⟩⟩

instance (w : Written) : Decidable w.Proper :=
  decidable_of_iff
    (w.blanks ≠ [] ∧ w.blanks.all Text.isBlank = true ∧ isFullName w.name = true ∧
      ∀ a ∈ w.assignment, a.Sound)
    ⟨fun h => ⟨h.1, List.all_eq_true.mp h.2.1, h.2.2.1, h.2.2.2⟩,
      fun h => ⟨h.blanks_ne, List.all_eq_true.mpr h.blanks, h.name, h.assignment⟩⟩

instance (t : OpenTag) : Decidable t.Proper :=
  decidable_of_iff
    (isTagName t.name = true ∧ (∀ w ∈ t.attributes, w.Proper) ∧
      t.blanks.all Text.isBlank = true ∧ (t.selfClosing = true → t.blanks ≠ []))
    ⟨fun h => ⟨h.1, h.2.1, List.all_eq_true.mp h.2.2.1, h.2.2.2⟩,
      fun h => ⟨h.name, h.attributes, List.all_eq_true.mpr h.blanks, h.slash⟩⟩

instance (p : Part) : Decidable p.Proper :=
  match p with
  | .text t => inferInstanceAs (Decidable ('<' ∉ t))
  | .closing name => inferInstanceAs (Decidable (isTagName name = true))
  | .opening t => inferInstanceAs (Decidable t.Proper)

/-! ## The elements of parts -/

/-- The text in front of the closing tag of this name, where only text stands there. -/
def textUpTo? (name : Text) : List Part → Option Text
  | [] => none
  | .text t :: parts => (textUpTo? name parts).map (t ++ ·)
  | .closing other :: _ => if other = name then some [] else none
  | .opening _ :: _ => none

/-- The elements of a line behind the text `front`. -/
def partElements (line offset : ℕ) : (front : Text) → List Part → List Element
  | _, [] => []
  | front, .text t :: parts => partElements line offset (front ++ t) parts
  | front, .closing name :: parts =>
    partElements line offset (front ++ (Part.closing name).render) parts
  | front, .opening t :: parts =>
    let element : Element :=
      { tag := t.name
        attributes := lastValues t.attributes
        content := ((textUpTo? t.name parts).map Text.normalizeBlanks).filter (!·.isEmpty)
        position := some ⟨line, front.length + 1, offset + front.length⟩
        framework := some .vue }
    (if t.selfClosing then [] else [element]) ++ partElements line offset (front ++ t.render) parts

/-- The elements of lines one below the other. -/
def linesElements : (line offset : ℕ) → List (List Part) → List Element
  | _, _, [] => []
  | line, offset, parts :: lines =>
    partElements line offset [] parts ++
      linesElements (line + 1) (offset + (renderLine parts).length + 1) lines

/-! ## Proper parts -/

theorem exists_letter_of_isTagName {name : Text} (h : isTagName name = true) :
    ∃ c cs, name = c :: cs ∧ Text.isAsciiLetter c = true ∧ ∀ d ∈ cs, isTagChar d = true := by
  cases name with
  | nil => exact nomatch h
  | cons c cs =>
      simp only [isTagName, Bool.and_eq_true, List.all_eq_true] at h
      exact ⟨c, cs, rfl, h.1, h.2⟩

theorem isTagChar_of_isTagName {name : Text} (h : isTagName name = true) :
    ∀ c ∈ name, isTagChar c = true := by
  obtain ⟨c, cs, rfl, hletter, htail⟩ := exists_letter_of_isTagName h
  exact List.forall_mem_cons.mpr ⟨isTagChar_of_isAsciiLetter hletter, htail⟩

theorem isNameChar_of_isFullName {name : Text} (h : isFullName name = true) :
    ∀ c ∈ name, isNameChar c = true := by
  intro c hc
  rcases isMark_or_isNameTail_of_isFullName h c hc with hmark | htail
  · rcases isMark_iff.mp hmark with rfl | rfl | rfl <;> decide
  · exact isNameChar_of_isNameTail htail

theorem Written.Proper.sound {w : Written} (h : w.Proper) : w.Sound :=
  ⟨h.blanks_ne, h.blanks, isFullName_ne_nil h.name, isNameChar_of_isFullName h.name, h.assignment⟩

theorem OpenTag.Proper.sound {t : OpenTag} (h : t.Proper) : t.Sound where
  name := exists_letter_of_isTagName h.name
  attributes w hw := (h.attributes w hw).sound
  blanks := h.blanks
  slash hself hnone := absurd hnone (h.slash hself)

/-! ## Layouts -/

/-- Text that masking leaves as it is, character by character. -/
def charPieces (t : Text) : List Piece :=
  t.map fun c => .char c c

def Part.pieces : Part → List Piece
  | .text t => charPieces t
  | .closing name => charPieces (Part.closing name).render
  | .opening t => [.tag t]

def linePieces (parts : List Part) : List Piece :=
  parts.flatMap Part.pieces

/-- A layout shows the parts as they are written, before masking and after it. -/
theorem flatMap_linePieces {shown : Piece → Text} (hchar : ∀ c, shown (.char c c) = [c])
    (htag : ∀ t, shown (.tag t) = t.render) (parts : List Part) :
    (linePieces parts).flatMap shown = renderLine parts := by
  have hchars : ∀ t : Text, (charPieces t).flatMap shown = t := by
    intro t
    simp [charPieces, List.flatMap_map, hchar]
  rw [linePieces, List.flatMap_assoc, renderLine]
  congr 1
  funext p
  cases p with
  | text t => exact hchars t
  | closing name => exact hchars _
  | opening t => simp [Part.pieces, Part.render, htag]

theorem rawText_linePieces (parts : List Part) : rawText (linePieces parts) = renderLine parts :=
  flatMap_linePieces (fun _ => rfl) (fun _ => rfl) parts

theorem shownText_linePieces (parts : List Part) :
    shownText (linePieces parts) = renderLine parts :=
  flatMap_linePieces (fun _ => rfl) (fun _ => rfl) parts

theorem elementsOf_charPieces (line offset n : ℕ) (t : Text) (ps : List Piece) :
    elementsOf line offset n (charPieces t ++ ps) = elementsOf line offset (n + t.length) ps := by
  induction t generalizing n with
  | nil => rfl
  | cons c t ih =>
      rw [List.length_cons, Nat.add_comm t.length 1, ← Nat.add_assoc]
      exact ih (n + 1)

theorem openTag?_of_ne {c : Char} (h : c ≠ '<') (cs : Text) : openTag? (c :: cs) = none := by
  unfold openTag?
  split
  · rename_i heq
    exact absurd (List.cons.inj heq).1 h
  · rfl

theorem reads_charPieces {t : Text} (ht : '<' ∉ t) {ps : List Piece} (hps : Reads ps) :
    Reads (charPieces t ++ ps) := by
  induction t with
  | nil => exact hps
  | cons c t ih =>
      rw [List.mem_cons, not_or] at ht
      exact ⟨openTag?_of_ne (Ne.symm ht.1) _, ih ht.2⟩

theorem reads_linePieces {parts : List Part} (h : ∀ p ∈ parts, p.Proper) :
    Reads (linePieces parts) := by
  induction parts with
  | nil => trivial
  | cons p parts ih =>
      rw [List.forall_mem_cons] at h
      obtain ⟨hp, hparts⟩ := h
      cases p with
      | text t => exact reads_charPieces hp (ih hparts)
      | closing name =>
          -- The bracket is read as no tag because of the slash behind it.
          have hplain : '<' ∉ '/' :: (name ++ ['>']) := by
            have hname : '<' ∉ name := fun hmem =>
              absurd (isTagChar_of_isTagName hp _ hmem) (by decide)
            simpa using hname
          refine ⟨?_, reads_charPieces hplain (ih hparts)⟩
          rfl
      | opening t => exact ⟨hp.sound, fun w hw => (hp.attributes w hw).name, ih hparts⟩

/-! ## Content -/

theorem enclosed?_text {t : Text} (ht : '<' ∉ t) (name rest : Text) :
    enclosed? name (t ++ rest) = (enclosed? name rest).map (t ++ ·) := by
  have hrun := Text.bne_of_not_mem ht
  rw [enclosed?, enclosed?, List.takeWhile_append_of_pos hrun, List.dropWhile_append_of_pos hrun]
  split
  · split <;> rfl
  · rfl

/-- Of two names that a bracket follows, the one is not a part of the other. -/
theorem head?_after?_tagName {name other rest tail : Text}
    (hname : ∀ c ∈ name, isTagChar c = true) (hother : ∀ c ∈ other, isTagChar c = true)
    (hne : other ≠ name) (h : Text.after? name (other ++ '>' :: rest) = some tail) :
    (tail.dropWhile Text.isBlank).head? ≠ some '>' := by
  -- The longer name would go on with the bracket, or with a character that is none.
  rcases List.append_eq_append_iff.mp (Text.eq_append_of_after? h) with
    ⟨more, rfl, hmore⟩ | ⟨more, rfl, rfl⟩
  · cases more with
    | nil => exact absurd (List.append_nil other).symm hne
    | cons c more =>
        obtain ⟨rfl, _⟩ := List.cons.inj hmore
        exact absurd (hname '>' (by simp)) (by decide)
  · cases more with
    | nil => exact absurd (List.append_nil name) hne
    | cons c more =>
        obtain ⟨hink, _, _, hend, _⟩ :=
          isNameChar_iff.mp (isNameChar_of_isTagChar (hother c (by simp)))
        simpa [hink] using hend

theorem enclosed?_closing {name other : Text} (hname : isTagName name = true)
    (hother : isTagName other = true) (rest : Text) :
    enclosed? name ((Part.closing other).render ++ rest) =
      if other = name then some [] else none := by
  have hafter : Text.after? ('<' :: '/' :: name) ((Part.closing other).render ++ rest) =
      Text.after? name (other ++ '>' :: rest) := by
    simp [Part.render, Text.after?]
  have hdrop : ((Part.closing other).render ++ rest).dropWhile (· != '<') =
      (Part.closing other).render ++ rest := rfl
  have htake : ((Part.closing other).render ++ rest).takeWhile (· != '<') = [] := rfl
  rw [enclosed?, hdrop, hafter, htake]
  by_cases hsame : other = name
  · subst hsame
    rw [Text.after?_self_append]
    exact (if_pos rfl).symm
  · split
    · rename_i tail htail
      have hhead := head?_after?_tagName (isTagChar_of_isTagName hname)
        (isTagChar_of_isTagName hother) hsame htail
      simp [hhead, hsame]
    · simp [hsame]

theorem enclosed?_opening {t : OpenTag} (ht : t.Sound) (name rest : Text) :
    enclosed? name (t.render ++ rest) = none := by
  obtain ⟨c, cs, hname, hletter, _⟩ := ht.name
  have hslash := ne_slash_of_isAsciiLetter hletter
  simp [enclosed?, OpenTag.render_eq, hname, Text.after?, Ne.symm hslash]

theorem enclosed?_renderLine {name : Text} (hname : isTagName name = true) {parts : List Part}
    (h : ∀ p ∈ parts, p.Proper) : enclosed? name (renderLine parts) = textUpTo? name parts := by
  induction parts with
  | nil => rfl
  | cons p parts ih =>
      rw [List.forall_mem_cons] at h
      obtain ⟨hp, hparts⟩ := h
      rw [renderLine_cons]
      cases p with
      | text t =>
          rw [textUpTo?, ← ih hparts]
          exact enclosed?_text hp name _
      | closing other => exact enclosed?_closing hname hp _
      | opening t => exact enclosed?_opening hp.sound name _

/-! ## Lines -/

theorem elementsOf_linePieces (line offset : ℕ) (front : Text) {parts : List Part}
    (h : ∀ p ∈ parts, p.Proper) :
    elementsOf line offset front.length (linePieces parts) =
      partElements line offset front parts := by
  induction parts generalizing front with
  | nil => rfl
  | cons p parts ih =>
      rw [List.forall_mem_cons] at h
      obtain ⟨hp, hparts⟩ := h
      have hbehind : ∀ text : Text,
          elementsOf line offset (front.length + text.length) (linePieces parts) =
            partElements line offset (front ++ text) parts := by
        intro text
        rw [← List.length_append]
        exact ih (front ++ text) hparts
      cases p with
      | text t => exact (elementsOf_charPieces line offset _ t _).trans (hbehind t)
      | closing name => exact (elementsOf_charPieces line offset _ _ _).trans (hbehind _)
      | opening t =>
          have hattributes : readAttributes t.attributeText = lastValues t.attributes :=
            readAttributes_eq_lastValues hp.sound.attributes fun w hw => (hp.attributes w hw).name
          have hcontent : content? t.name (shownText (linePieces parts)) =
              ((textUpTo? t.name parts).map Text.normalizeBlanks).filter (!·.isEmpty) := by
            rw [content?, shownText_linePieces, enclosed?_renderLine hp.name hparts]
          have hpieces : linePieces (.opening t :: parts) = .tag t :: linePieces parts := rfl
          rw [hpieces, elementsOf, partElements, hbehind t.render, tagElement, hattributes,
            hcontent]

/-- A line in which no comment opens is left as it is. -/
theorem maskLine_of_not_infix {line : Text} (h : ¬ "<!--".toList <:+: line) :
    maskLine false line = (line, false) := by
  induction line with
  | nil => rfl
  | cons c line ih =>
      rw [List.infix_cons_iff, not_or, ← opens_iff, Bool.not_eq_true] at h
      rw [maskLine_outside h.1, ih h.2]

section Template

variable {lines : List (List Part)}

theorem lays_linePieces (hparts : ∀ parts ∈ lines, ∀ p ∈ parts, p.Proper)
    (hcomments : ∀ parts ∈ lines, ¬ "<!--".toList <:+: renderLine parts) :
    Lays false (lines.map linePieces) := by
  induction lines with
  | nil => trivial
  | cons parts lines ih =>
      rw [List.forall_mem_cons] at hparts hcomments
      have hmask := maskLine_of_not_infix hcomments.1
      rw [List.map_cons, Lays, rawText_linePieces, shownText_linePieces, hmask]
      exact ⟨reads_linePieces hparts.1, rfl, ih hparts.2 hcomments.2⟩

theorem sheetElements_linePieces (hparts : ∀ parts ∈ lines, ∀ p ∈ parts, p.Proper)
    (line offset : ℕ) :
    sheetElements line offset (lines.map linePieces) = linesElements line offset lines := by
  induction lines generalizing line offset with
  | nil => rfl
  | cons parts lines ih =>
      rw [List.forall_mem_cons] at hparts
      rw [List.map_cons, sheetElements, linesElements, ih hparts.2, shownText_linePieces]
      exact congrArg (· ++ _) (elementsOf_linePieces line offset [] hparts.1)

/-- A template that is written out of proper parts, without a comment, is read as their
elements. -/
theorem templateElements_renderLine (source : Text) {template : Section}
    (hlines : template.lines = lines.map renderLine)
    (hparts : ∀ parts ∈ lines, ∀ p ∈ parts, p.Proper)
    (hcomments : ∀ parts ∈ lines, ¬ "<!--".toList <:+: renderLine parts) :
    templateElements source template =
      linesElements template.startLine (lineStart source template.startLine) lines := by
  have hlays := lays_linePieces hparts hcomments
  have hraw : template.lines = (lines.map linePieces).map rawText := by
    rw [hlines, List.map_map]
    exact List.map_congr_left fun parts _ => (rawText_linePieces parts).symm
  rw [templateElements, hraw, hlays.maskLines_eq, hlays.elementsFrom_eq]
  exact sheetElements_linePieces hparts _ _

/-- A link with a repeated name, a tag in a value and a slash that belongs to a value, in front of a
self-closing tag. -/
theorem templateElements_renderLine_link :
    let template : Section :=
      { name := "template".toList, openLine := 1
        lines := ["<a x=\"<p>\" b x='1' c=2/> t  u</a><br />".toList] }
    templateElements (Text.join ['\n'] ("<template>".toList :: template.lines)) template =
      [{ tag := ['a']
         attributes := [(['x'], ['1']), (['b'], []), (['c'], "2/".toList)]
         content := some "t u".toList
         position := some ⟨2, 1, 11⟩
         framework := some .vue }] := by
  intro template
  let link : OpenTag :=
    { name := ['a']
      attributes :=
        [⟨[' '], ['x'], some { value := "<p>".toList }⟩, ⟨[' '], ['b'], none⟩,
          ⟨[' '], ['x'], some { quoting := .single, value := ['1'] }⟩,
          ⟨[' '], ['c'], some { quoting := .bare, value := "2/".toList }⟩] }
  let parts : List Part :=
    [.opening link, .text " t  u".toList, .closing ['a'],
      .opening { name := "br".toList, blanks := [' '], selfClosing := true }]
  have hread : ∀ source, templateElements source template =
      linesElements template.startLine (lineStart source template.startLine) [parts] :=
    fun source => templateElements_renderLine source (by decide) (by decide) (by decide)
  exact (hread _).trans (by decide)

end Template

end Sfc

end MarkupIds
