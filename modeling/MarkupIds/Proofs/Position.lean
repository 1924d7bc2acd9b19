import MarkupIds.Proofs.Text.Encoding
import MarkupIds.Reading
import Mathlib.Data.List.DropRight

/-!
# Lines, columns and offsets

The position of a byte is found by decoding the bytes in front of it and by halving the list of
line starts. For the first byte of a character it is what counting gives: the line feeds in front of
the character, the characters behind the last of them, and all characters.
-/

namespace MarkupIds

/-- The position of the character at an offset, by counting. -/
structure Position.IsAt (source : Text) (i : ℕ) (p : Position) : Prop where
  line : p.line = (source.take i).count '\n' + 1
  column : p.column = ((source.take i).rtakeWhile (· != '\n')).length + 1
  offset : p.offset = i

/-- Behind a text without line feeds the last line goes on. -/
theorem rtakeWhile_append_of_not_mem (s : Text) {t : Text} (h : '\n' ∉ t) :
    (s ++ t).rtakeWhile (· != '\n') = s.rtakeWhile (· != '\n') ++ t := by
  have hwhole : ∀ c ∈ t.reverse, (c != '\n') = true := by
    intro c hc
    rw [bne_iff_ne]
    rintro rfl
    exact h (List.mem_reverse.mp hc)
  simp [List.rtakeWhile, List.takeWhile_append_of_pos hwhole]

namespace Position.IsAt

theorem eq_of_take_eq {source code : Text} {i : ℕ} {p q : Position} (hp : p.IsAt source i)
    (hq : q.IsAt code i) (h : code.take i = source.take i) : q = p := by
  obtain ⟨hpline, hpcolumn, hpoffset⟩ := hp
  obtain ⟨hqline, hqcolumn, hqoffset⟩ := hq
  rw [h] at hqline hqcolumn
  cases p
  cases q
  simp only [Position.mk.injEq]
  exact ⟨hqline.trans hpline.symm, hqcolumn.trans hpcolumn.symm, hqoffset.trans hpoffset.symm⟩

/-- A later offset has a later line, or else a later column. -/
theorem spot_lt {source : Text} {i j : ℕ} {p q : Position} (hp : p.IsAt source i)
    (hq : q.IsAt source j) (hlt : i < j) (hj : j ≤ source.length) :
    p.line < q.line ∨ p.line = q.line ∧ p.column < q.column := by
  obtain ⟨between, hbetween⟩ : ∃ between, source.take j = source.take i ++ between := by
    have hsplit := List.take_append_drop i (source.take j)
    rw [List.take_take, min_eq_left hlt.le] at hsplit
    exact ⟨_, hsplit.symm⟩
  have hlength : between.length = j - i := by
    have htotal := congrArg List.length hbetween
    rw [List.length_append, List.length_take, List.length_take, min_eq_left hj,
      min_eq_left (hlt.le.trans hj)] at htotal
    omega
  rw [hp.line, hq.line, hp.column, hq.column, hbetween, List.count_append]
  by_cases hline : '\n' ∈ between
  · left
    have hpos : 0 < between.count '\n' := List.count_pos_iff.mpr hline
    omega
  · right
    have hsame : between.count '\n' = 0 := List.count_eq_zero.mpr hline
    rw [hsame, rtakeWhile_append_of_not_mem _ hline, List.length_append, hlength]
    omega

/-- Line and column determine the offset. -/
theorem spot_ne {source : Text} {i j : ℕ} {p q : Position} (hp : p.IsAt source i)
    (hq : q.IsAt source j) (hlt : i < j) (hj : j ≤ source.length) :
    p.line ≠ q.line ∨ p.column ≠ q.column := by
  rcases hp.spot_lt hq hlt hj with hline | ⟨_, hcolumn⟩
  · exact .inl (Int.ne_of_lt hline)
  · exact .inr (Int.ne_of_lt hcolumn)

/-- The order of lines and columns is that of offsets. -/
theorem offset_lt {source : Text} {i j : ℕ} {p q : Position} (hp : p.IsAt source i)
    (hq : q.IsAt source j) (hi : i ≤ source.length)
    (h : p.line < q.line ∨ p.line = q.line ∧ p.column < q.column) : i < j := by
  rcases Nat.lt_trichotomy i j with hlt | rfl | hlt
  · exact hlt
  · obtain rfl := hp.eq_of_take_eq hq rfl
    omega
  · have hreverse := hq.spot_lt hp hlt hi
    omega

end Position.IsAt

/-! ## Line starts -/

theorem lineStartsFrom_append (n : ℕ) (s t : Text) :
    lineStartsFrom n (s ++ t) = lineStartsFrom n s ++ lineStartsFrom (n + s.length) t := by
  induction s generalizing n with
  | nil => rfl
  | cons c s ih =>
      have hlength : n + (c :: s).length = n + 1 + s.length := by
        rw [List.length_cons]
        omega
      simp only [List.cons_append, lineStartsFrom, ih, hlength]
      split <;> rfl

theorem length_lineStartsFrom (n : ℕ) (t : Text) :
    (lineStartsFrom n t).length = t.count '\n' := by
  induction t generalizing n with
  | nil => rfl
  | cons c t ih =>
      rw [lineStartsFrom, List.count_cons]
      split <;> simp [ih]

/-- A line that starts behind an offset starts at most behind the whole text. -/
theorem mem_lineStartsFrom {n start : ℕ} {t : Text} (h : start ∈ lineStartsFrom n t) :
    n < start ∧ start ≤ n + t.length := by
  induction t generalizing n with
  | nil => exact absurd h List.not_mem_nil
  | cons c t ih =>
      have hlater : start ∈ lineStartsFrom (n + 1) t → n < start ∧ start ≤ n + (c :: t).length := by
        intro h
        have hbounds := ih h
        rw [List.length_cons]
        omega
      rw [lineStartsFrom] at h
      split at h
      · rcases List.mem_cons.mp h with rfl | h
        · simp
        · exact hlater h
      · exact hlater h

/-- The last line of a text is what stands behind its last line feed. -/
theorem getLast?_lineStarts (t : Text) :
    ∃ start, (lineStarts t).getLast? = some start ∧
      start + (t.rtakeWhile (· != '\n')).length = t.length := by
  induction t using List.reverseRecOn with
  | nil => exact ⟨0, rfl, rfl⟩
  | append_singleton t c ih =>
      obtain ⟨start, hlast, hlength⟩ := ih
      have hstarts : lineStarts (t ++ [c]) = lineStarts t ++ lineStartsFrom t.length [c] := by
        rw [lineStarts, lineStartsFrom_append, Nat.zero_add]
        rfl
      by_cases hbreak : c = '\n'
      · subst hbreak
        refine ⟨t.length + 1, ?_, ?_⟩
        · rw [hstarts]
          exact List.getLast?_concat
        · rw [List.rtakeWhile_concat_neg _ _ _ (by simp)]
          simp
      · have hnone : lineStartsFrom t.length [c] = [] := by simp [lineStartsFrom, hbreak]
        refine ⟨start, ?_, ?_⟩
        · rw [hstarts, hnone, List.append_nil, hlast]
        · rw [List.rtakeWhile_concat_pos _ _ _ (by simpa using hbreak)]
          simp only [List.length_append, List.length_singleton]
          omega

/-! ## Halving -/

section Halving

variable {low high : List ℕ} {x : ℕ}

theorem any_getElem?_iff (hlow : ∀ y ∈ low, y ≤ x) (hhigh : ∀ y ∈ high, x < y) {mid : ℕ}
    (hmid : mid < (low ++ high).length) :
    (low ++ high)[mid]?.any (x < ·) = true ↔ low.length ≤ mid := by
  rw [List.getElem?_eq_getElem hmid, Option.any_some, decide_eq_true_eq]
  constructor
  · intro hgreater
    by_contra hfront
    rw [Nat.not_le] at hfront
    rw [List.getElem_append_left hfront] at hgreater
    exact absurd (hlow _ (List.getElem_mem hfront)) (Nat.not_le.mpr hgreater)
  · intro hback
    rw [List.getElem_append_right hback]
    exact hhigh _ (List.getElem_mem _)

/-- Halving finds the end of the entries that are at most `x`. -/
theorem bisect_append (hlow : ∀ y ∈ low, y ≤ x) (hhigh : ∀ y ∈ high, x < y) {fuel lo hi : ℕ}
    (hlo : lo ≤ low.length) (hhi : low.length ≤ hi) (hend : hi ≤ (low ++ high).length)
    (hfuel : hi ≤ lo + fuel) : bisect (low ++ high) x fuel lo hi = low.length := by
  induction fuel generalizing lo hi with
  | zero =>
      rw [bisect]
      omega
  | succ fuel ih =>
      rw [bisect]
      by_cases hlt : lo < hi
      · have hmid : (lo + hi) / 2 < (low ++ high).length := by omega
        rw [if_pos hlt]
        dsimp only
        split
        · rename_i hgreater
          have hback := (any_getElem?_iff hlow hhigh hmid).mp hgreater
          exact ih hlo hback hmid.le (by omega)
        · rename_i hatMost
          rw [any_getElem?_iff hlow hhigh hmid, Nat.not_le] at hatMost
          exact ih hatMost hhi hend (by omega)
      · rw [if_neg hlt]
        omega

end Halving

/-- The position of an offset is found by its line start. -/
theorem Position.ofLineStarts_isAt {source : Text} {i : ℕ} (hi : i ≤ source.length) :
    (Position.ofLineStarts (lineStarts source) i).IsAt source i := by
  have hfront : (source.take i).length = i := by rw [List.length_take, min_eq_left hi]
  obtain ⟨start, hlast, hlength⟩ := getLast?_lineStarts (source.take i)
  rw [hfront] at hlength
  have hstarts : lineStarts source =
      lineStarts (source.take i) ++ lineStartsFrom i (source.drop i) := by
    conv_lhs => rw [← List.take_append_drop i source]
    rw [lineStarts, lineStartsFrom_append, Nat.zero_add, hfront]
    rfl
  have hcount : (lineStarts (source.take i)).length = (source.take i).count '\n' + 1 := by
    rw [lineStarts, List.length_cons, length_lineStartsFrom]
  have hlow : ∀ y ∈ lineStarts (source.take i), y ≤ i := by
    intro y hy
    rcases List.mem_cons.mp hy with rfl | hy
    · exact Nat.zero_le _
    · have hbounds := (mem_lineStartsFrom hy).2
      rwa [Nat.zero_add, hfront] at hbounds
  have hhigh : ∀ y ∈ lineStartsFrom i (source.drop i), i < y :=
    fun y hy => (mem_lineStartsFrom hy).1
  have hrow : bisect (lineStarts source) i (lineStarts source).length 0
      (lineStarts source).length = (source.take i).count '\n' + 1 := by
    rw [hstarts, bisect_append hlow hhigh (Nat.zero_le _) (by simp) (Nat.le_refl _) (by omega),
      hcount]
  have hstart : (lineStarts source).getD ((source.take i).count '\n') 0 = start := by
    rw [List.getLast?_eq_getElem?, hcount, Nat.add_sub_cancel] at hlast
    rw [hstarts, List.getD_eq_getElem?_getD, List.getElem?_append_left (by omega), hlast,
      Option.getD_some]
  constructor
  · simp [Position.ofLineStarts, hrow]
  · simp only [Position.ofLineStarts, hrow, Nat.add_sub_cancel, hstart]
    omega
  · rfl

/-! ## Bytes -/

namespace OffsetMap

/-- Where every character takes one byte, bytes are counted like characters. -/
theorem charOffset_eq_length_decode {source : Text} {byte : ℕ}
    (h : byte ≤ (Text.encode source).length) :
    (ofText source).charOffset byte =
      (Text.decode ((Text.encode source).take byte)).length := by
  rw [charOffset]
  split
  · rename_i hascii
    have hlength : (Text.encode source).length = source.length := by simpa [ofText] using hascii
    have hbyte : byte ≤ source.length := hlength ▸ h
    have hfront := Text.length_encode_take hlength hbyte
    have htake := Text.take_encode source byte
    rw [hfront] at htake
    rw [htake, Text.decode_encode, List.length_take, min_eq_left hbyte]
  · rfl

theorem charOffset_encode_take {source : Text} {i : ℕ} (hi : i ≤ source.length) :
    (ofText source).charOffset (Text.encode (source.take i)).length = i := by
  have hle : (Text.encode (source.take i)).length ≤ (Text.encode source).length := by
    have hprefix := congrArg List.length (Text.take_encode source i)
    rw [List.length_take] at hprefix
    omega
  rw [charOffset_eq_length_decode hle, Text.take_encode, Text.decode_encode, List.length_take,
    min_eq_left hi]

end OffsetMap

theorem Position.ofOffset_isAt {source : Text} {i : ℕ} (hi : i ≤ source.length) :
    (Position.ofOffset source i).IsAt source i := by
  rw [Position.ofOffset, OffsetMap.position, OffsetMap.charOffset_encode_take hi]
  exact Position.ofLineStarts_isAt hi

end MarkupIds
