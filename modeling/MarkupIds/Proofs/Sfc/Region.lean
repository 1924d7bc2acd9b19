import MarkupIds.Proofs.Sfc.Comment

/-!
# The comments of a whole text

Lines are masked one by one, with one flag that is handed on. The comments that are blanked out in
this way are those that one scan over the whole text finds.
-/

namespace MarkupIds.Sfc

/-! ## The scan -/

/-- A comment in a text, from one offset up to another. -/
structure Region where
  start : ℕ
  stop : ℕ
  /-- It ends with a closing mark, not with the text. -/
  closed : Bool
deriving DecidableEq, Repr

def Region.covers (r : Region) (i : ℕ) : Bool :=
  r.start ≤ i && i < r.stop

/-- The comments of a text that stands at offset `n`. One starts right here if `inside` says so, and
else at the next opening mark; it runs through the next closing mark from its start on. -/
def regionsFrom (inside : Bool) (n : ℕ) (cs : Text) : List Region :=
  match inside with
  | true =>
    match _hcut : Text.cut? "-->".toList cs with
    | some (body, rest) =>
      ⟨n, n + (body.length + 3), true⟩ :: regionsFrom false (n + (body.length + 3)) rest
    | none => [⟨n, n + cs.length, false⟩]
  | false =>
    match _hcut : Text.cut? "<!--".toList cs with
    | some (shown, rest) => regionsFrom true (n + shown.length) ("<!--".toList ++ rest)
    | none => []
termination_by 2 * cs.length + if inside then 0 else 1
decreasing_by
  all_goals
    have hlength := congrArg List.length (Text.eq_append_of_cut? _hcut)
    simp at hlength ⊢
    omega

theorem regionsFrom_closed {n : ℕ} {cs body rest : Text}
    (h : Text.cut? "-->".toList cs = some (body, rest)) :
    regionsFrom true n cs =
      ⟨n, n + (body.length + 3), true⟩ :: regionsFrom false (n + (body.length + 3)) rest := by
  rw [regionsFrom]
  split <;> simp_all

theorem regionsFrom_unclosed {n : ℕ} {cs : Text} (h : Text.cut? "-->".toList cs = none) :
    regionsFrom true n cs = [⟨n, n + cs.length, false⟩] := by
  rw [regionsFrom]
  split <;> simp_all

theorem regionsFrom_opened {n : ℕ} {cs shown rest : Text}
    (h : Text.cut? "<!--".toList cs = some (shown, rest)) :
    regionsFrom false n cs = regionsFrom true (n + shown.length) ("<!--".toList ++ rest) := by
  conv_lhs => rw [regionsFrom]
  split <;> simp_all

def regions (inside : Bool) (text : Text) : List Region :=
  regionsFrom inside 0 text

/-- The text with spaces in place of what stands in the regions. Line feeds stay. -/
def blankOut (regions : List Region) (text : Text) : Text :=
  text.mapIdx fun i c => if regions.any (·.covers i) && c != '\n' then ' ' else c

/-! ## Masking between marks -/

theorem ne_closing_of_not_isPrefix {t : Text} (h : ¬ "-->".toList <+: t) (rest : Text) :
    t ≠ '-' :: '-' :: '>' :: rest := by
  rintro rfl
  exact h ⟨rest, rfl⟩

theorem maskLine_shown {c : Char} {t : Text} (h : ¬ "<!--".toList <+: c :: t) :
    maskLine false (c :: t) = (c :: (maskLine false t).1, (maskLine false t).2) := by
  apply maskLine_outside
  rwa [← Bool.not_eq_true, opens_iff]

/-- A comment that no mark closes is all blanked out. -/
theorem maskLine_of_unclosed {t : Text} (h : Text.cut? "-->".toList t = none) :
    maskLine true t = (t.map fun _ => ' ', true) := by
  induction t with
  | nil => rfl
  | cons c t ih =>
      obtain ⟨hmark, hcut⟩ := Text.cut?_cons_eq_none h
      rw [maskLine_inside (ne_closing_of_not_isPrefix hmark), ih hcut]
      rfl

/-- A comment is blanked out through its closing mark. -/
theorem maskLine_of_closed {t body rest : Text}
    (h : Text.cut? "-->".toList t = some (body, rest)) :
    maskLine true t =
      ((body ++ "-->".toList).map (fun _ => ' ') ++ (maskLine false rest).1,
        (maskLine false rest).2) := by
  induction t generalizing body with
  | nil => exact nomatch h
  | cons c t ih =>
      rcases Text.cut?_cons_eq_some h with ⟨rfl, hmark⟩ | ⟨hmark, body, rfl, hcut⟩
      · rw [hmark]
        rfl
      · rw [maskLine_inside (ne_closing_of_not_isPrefix hmark), ih hcut]
        rfl

/-- A text without an opening mark is shown. -/
theorem maskLine_of_unopened {t : Text} (h : Text.cut? "<!--".toList t = none) :
    maskLine false t = (t, false) := by
  induction t with
  | nil => rfl
  | cons c t ih =>
      obtain ⟨hmark, hcut⟩ := Text.cut?_cons_eq_none h
      rw [maskLine_shown hmark, ih hcut]

/-- A text is shown up to its first opening mark, and the mark belongs to the comment. -/
theorem maskLine_of_opened {t shown rest : Text}
    (h : Text.cut? "<!--".toList t = some (shown, rest)) :
    maskLine false t =
      (shown ++ (maskLine true ("<!--".toList ++ rest)).1,
        (maskLine true ("<!--".toList ++ rest)).2) := by
  induction t generalizing shown with
  | nil => exact nomatch h
  | cons c t ih =>
      rcases Text.cut?_cons_eq_some h with ⟨rfl, hmark⟩ | ⟨hmark, shown, rfl, hcut⟩
      · rw [hmark]
        rfl
      · rw [maskLine_shown hmark, ih hcut]
        rfl

/-! ## Masking by regions -/

theorem le_start_of_mem_regionsFrom {inside : Bool} {n : ℕ} {cs : Text} {r : Region}
    (h : r ∈ regionsFrom inside n cs) : n ≤ r.start := by
  fun_induction regionsFrom inside n cs with
  | case1 n cs body rest hcut ih =>
      rcases List.mem_cons.mp h with rfl | h
      · exact Nat.le_refl _
      · exact (Nat.le_add_right _ _).trans (ih h)
  | case2 n cs hcut =>
      rw [List.mem_singleton.mp h]
  | case3 n cs shown rest hcut ih => exact (Nat.le_add_right _ _).trans (ih h)
  | case4 n cs hcut => exact absurd h List.not_mem_nil

/-- Characters are blanked out as long as a region covers them. -/
theorem mapIdx_of_covered {p : ℕ → Bool} {t : Text} (h : ∀ i < t.length, p i = true) :
    t.mapIdx (fun i c => if p i then ' ' else c) = t.map fun _ => ' ' := by
  apply List.ext_getElem (by simp)
  intro i hi _
  simp [h i (by simpa using hi)]

theorem mapIdx_of_uncovered {p : ℕ → Bool} {t : Text} (h : ∀ i < t.length, p i = false) :
    t.mapIdx (fun i c => if p i then ' ' else c) = t := by
  apply List.ext_getElem (by simp)
  intro i hi _
  simp [h i (by simpa using hi)]

theorem not_covered_of_lt {inside : Bool} {n i : ℕ} {cs : Text} (h : i < n) :
    (regionsFrom inside n cs).any (·.covers i) = false := by
  rw [List.any_eq_false]
  intro r hr
  have hstart := le_start_of_mem_regionsFrom hr
  simp only [Region.covers, Bool.and_eq_true, decide_eq_true_eq, not_and]
  omega

/-- Masking a text blanks out what its regions cover, and says whether the last one is open. -/
theorem maskLine_eq_regions (inside : Bool) (n : ℕ) (cs : Text) :
    maskLine inside cs =
      (cs.mapIdx fun i c =>
        if (regionsFrom inside n cs).any (·.covers (n + i)) then ' ' else c,
        (regionsFrom inside n cs).getLast?.any (!·.closed)) := by
  fun_induction regionsFrom inside n cs with
  | case1 n cs body rest hcut ih =>
      have hbody : ∀ i < (body ++ "-->".toList).length,
          (⟨n, n + (body.length + 3), true⟩ :: regionsFrom false (n + (body.length + 3)) rest).any
            (·.covers (n + i)) = true := by
        intro i hi
        have hlt : i < body.length + 3 := by simpa using hi
        simp [Region.covers, hlt]
      have hrest : ∀ i, (⟨n, n + (body.length + 3), true⟩ ::
          regionsFrom false (n + (body.length + 3)) rest).any
            (·.covers (n + (i + (body ++ "-->".toList).length))) =
          (regionsFrom false (n + (body.length + 3)) rest).any
            (·.covers (n + (body.length + 3) + i)) := by
        intro i
        have hindex : n + (i + (body ++ "-->".toList).length) = n + (body.length + 3) + i := by
          simp only [List.length_append, show "-->".toList.length = 3 from rfl]
          omega
        have hpast : (Region.mk n (n + (body.length + 3)) true).covers
            (n + (body.length + 3) + i) = false := by
          simp [Region.covers]
        rw [hindex, List.any_cons, hpast, Bool.false_or]
      have hcs : cs = body ++ "-->".toList ++ rest := by
        rw [Text.eq_append_of_cut? hcut, List.append_assoc]
      rw [maskLine_of_closed hcut, ih]
      conv_rhs => rw [hcs, List.mapIdx_append, mapIdx_of_covered hbody]
      simp only [hrest]
      congr 1
      cases regionsFrom false (n + (body.length + 3)) rest <;> rfl
  | case2 n cs hcut =>
      rw [maskLine_of_unclosed hcut, mapIdx_of_covered]
      · rfl
      · intro i hi
        simp [Region.covers, hi]
  | case3 n cs shown rest hcut ih =>
      have hshown : ∀ i < shown.length,
          (regionsFrom true (n + shown.length) ("<!--".toList ++ rest)).any (·.covers (n + i)) =
            false := fun i hi => not_covered_of_lt (by omega)
      have hindex : ∀ i, n + (i + shown.length) = n + shown.length + i := by omega
      rw [maskLine_of_opened hcut, ih]
      conv_rhs => rw [Text.eq_append_of_cut? hcut, List.mapIdx_append, mapIdx_of_uncovered hshown]
      simp only [hindex]
  | case4 n cs hcut =>
      rw [maskLine_of_unopened hcut, mapIdx_of_uncovered]
      · rfl
      · intro i _
        rfl

/-! ## Masking by lines -/

/-- A masked text with the line feeds of the text put back. -/
def keepBreaks (t masked : Text) : Text :=
  List.zipWith (fun c d => if c == '\n' then c else d) t masked

theorem keepBreaks_of_not_mem {t masked : Text} (h : '\n' ∉ t)
    (hlength : masked.length = t.length) : keepBreaks t masked = masked := by
  apply List.ext_getElem (by simp [keepBreaks, hlength])
  intro i _ hmasked
  have hi : i < t.length := hlength ▸ hmasked
  have hne : t[i] ≠ '\n' := fun heq => h (heq ▸ List.getElem_mem hi)
  simp [keepBreaks, hne]

theorem keepBreaks_append {s masked : Text} (hlength : masked.length = s.length)
    (t masked' : Text) :
    keepBreaks (s ++ t) (masked ++ masked') = keepBreaks s masked ++ keepBreaks t masked' :=
  List.zipWith_append hlength.symm

theorem keepBreaks_mapIdx (rs : List Region) (t : Text) :
    keepBreaks t (t.mapIdx fun i c => if rs.any (·.covers i) then ' ' else c) = blankOut rs t := by
  apply List.ext_getElem (by simp [keepBreaks, blankOut])
  intro i _ hi
  have hi : i < t.length := by simpa [blankOut] using hi
  by_cases hbreak : t[i] = '\n'
  · simp [keepBreaks, blankOut, hbreak]
  · simp [keepBreaks, blankOut, hbreak]

/-- A line feed leaves the flag as it is. -/
theorem maskLine_break (inside : Bool) (t : Text) :
    ∃ c, maskLine inside ('\n' :: t) = (c :: (maskLine inside t).1, (maskLine inside t).2) := by
  cases inside with
  | true => exact ⟨' ', maskLine_inside (by simp)⟩
  | false => exact ⟨'\n', maskLine_outside rfl⟩

theorem maskLines_cons (inside : Bool) (line : Text) (lines : List Text) :
    maskLines inside (line :: lines) =
      maskLine inside line :: maskLines (maskLine inside line).2 lines := rfl

/-- The flag that is handed on behind masked lines. -/
def flagBehind (inside : Bool) (masked : List (Text × Bool)) : Bool :=
  (masked.getLast?.map (·.2)).getD inside

theorem flagBehind_cons (inside : Bool) (first : Text × Bool) (masked : List (Text × Bool)) :
    flagBehind inside (first :: masked) = flagBehind first.2 masked := by
  cases masked <;> rfl

/-- Lines masked one by one make up the masked text. -/
theorem join_maskLines (inside : Bool) {lines : List Text} (h : ∀ line ∈ lines, '\n' ∉ line) :
    Text.join ['\n'] ((maskLines inside lines).map (·.1)) =
        keepBreaks (Text.join ['\n'] lines) (maskLine inside (Text.join ['\n'] lines)).1 ∧
      flagBehind inside (maskLines inside lines) =
        (maskLine inside (Text.join ['\n'] lines)).2 := by
  induction lines generalizing inside with
  | nil => exact ⟨rfl, rfl⟩
  | cons line lines ih =>
      have hline : keepBreaks line (maskLine inside line).1 = (maskLine inside line).1 :=
        keepBreaks_of_not_mem (h line (by simp)) (length_maskLine inside line)
      cases lines with
      | nil =>
          have hone : Text.join ['\n'] [line] = line := List.intercalate_singleton
          rw [hone, hline]
          exact ⟨List.intercalate_singleton, rfl⟩
      | cons next lines =>
          obtain ⟨hjoin, hflag⟩ :=
            ih (maskLine inside line).2 (fun l hl => h l (List.mem_cons_of_mem line hl))
          have hrest : Text.join ['\n'] (line :: next :: lines) =
              line ++ '\n' :: Text.join ['\n'] (next :: lines) := by
            rw [Text.join, List.intercalate_cons_cons, List.append_assoc]
            rfl
          obtain ⟨c, hbreak⟩ := maskLine_break (maskLine inside line).2
            (Text.join ['\n'] (next :: lines))
          rw [hrest, maskLine_append_stop (by decide), hbreak]
          constructor
          · rw [keepBreaks_append (length_maskLine inside line), hline]
            change _ = _ ++ '\n' :: keepBreaks _ _
            rw [← hjoin, maskLines_cons, maskLines_cons, List.map_cons, List.map_cons, Text.join,
              List.intercalate_cons_cons, List.append_assoc]
            rfl
          · rw [maskLines_cons, flagBehind_cons, hflag]

theorem map_length_maskLines (inside : Bool) (lines : List Text) :
    (maskLines inside lines).map (·.1.length) = lines.map (·.length) := by
  induction lines generalizing inside with
  | nil => rfl
  | cons line lines ih => rw [maskLines_cons, List.map_cons, ih, length_maskLine, List.map_cons]

/-- Masking lines one by one blanks out the comments of the whole text, and only these. The flag
behind the last line says whether the last comment is open. -/
theorem maskLines_blank_regions (inside : Bool) (lines : List Text)
    (h : ∀ line ∈ lines, '\n' ∉ line) :
    let text := Text.join ['\n'] lines
    let masked := maskLines inside lines
    masked.map (·.1.length) = lines.map (·.length) ∧
      Text.join ['\n'] (masked.map (·.1)) = blankOut (regions inside text) text ∧
      (flagBehind inside masked = true ↔
        ∃ r, (regions inside text).getLast? = some r ∧ r.closed = false) := by
  intro text masked
  obtain ⟨hjoin, hflag⟩ := join_maskLines inside h
  have hregions := maskLine_eq_regions inside 0 text
  simp only [Nat.zero_add] at hregions
  refine ⟨map_length_maskLines inside lines, ?_, ?_⟩
  · rw [hjoin, hregions]
    exact keepBreaks_mapIdx (regions inside text) text
  · rw [hflag, hregions]
    simp [regions, Option.any_eq_true]

theorem maskLines_blank_regions_overlap :
    let lines := ["x --> <!--> y".toList, [], "<!-- z".toList]
    let text := Text.join ['\n'] lines
    (∀ line ∈ lines, '\n' ∉ line) ∧
      regions true text = [⟨0, 5, true⟩, ⟨6, 11, true⟩, ⟨15, 21, false⟩] ∧
      Text.join ['\n'] ((maskLines true lines).map (·.1)) = blankOut (regions true text) text ∧
      flagBehind true (maskLines true lines) = true := by
  intro lines text
  have hlines : ∀ line ∈ lines, '\n' ∉ line := by decide
  have hregions : regions true text = [⟨0, 5, true⟩, ⟨6, 11, true⟩, ⟨15, 21, false⟩] := by
    have hfirst : Text.cut? "-->".toList text = some ("x ".toList, " <!--> y\n\n<!-- z".toList) := by
      decide
    have hopened : Text.cut? "<!--".toList " <!--> y\n\n<!-- z".toList =
        some (" ".toList, "> y\n\n<!-- z".toList) := by decide
    have hclosed : Text.cut? "-->".toList ("<!--".toList ++ "> y\n\n<!-- z".toList) =
        some ("<!".toList, " y\n\n<!-- z".toList) := by decide
    have hreopened : Text.cut? "<!--".toList " y\n\n<!-- z".toList =
        some (" y\n\n".toList, " z".toList) := by decide
    have hunclosed : Text.cut? "-->".toList ("<!--".toList ++ " z".toList) = none := by decide
    rw [regions, regionsFrom_closed hfirst, regionsFrom_opened hopened, regionsFrom_closed hclosed,
      regionsFrom_opened hreopened, regionsFrom_unclosed hunclosed]
    rfl
  obtain ⟨_, hmasked, hflag⟩ := maskLines_blank_regions true lines hlines
  exact ⟨hlines, hregions, hmasked, hflag.mpr ⟨⟨15, 21, false⟩, by rw [hregions]; rfl, rfl⟩⟩

end MarkupIds.Sfc
