import MarkupIds.Text.Basic
import MarkupIds.Text.CaseTable
import MarkupIds.Text.CaseClass

/-!
# Letter case

Full Unicode case mappings: one character may become several, and a capital sigma at the end of
a word becomes a final sigma.
-/

namespace MarkupIds.Text

private def shiftBy (n : Nat) (shift : Int) : Char :=
  Char.ofNat (Int.toNat (n + shift))

private def inRuns (runs : List (Nat × Nat)) (n : Nat) : Bool :=
  runs.any fun (first, last) => first ≤ n && n ≤ last

private def mapCase (runs : List CaseRun) (c : Char) : Char :=
  match runs.find? (·.covers c.toNat) with
  | some run => shiftBy c.toNat run.shift
  | none => c

/-- Lower case of a character on its own. -/
def lowerChar (c : Char) : Text :=
  if c.toNat < 128 then [if 'A' ≤ c && c ≤ 'Z' then shiftBy c.toNat 32 else c]
  else if c.toNat == 0x130 then ['i', Char.ofNat 0x307]
  else [mapCase lowerRuns c]

/-- Upper case of a character, possibly several characters. -/
def upperChar (c : Char) : Text :=
  if c.toNat < 128 then [if 'a' ≤ c && c ≤ 'z' then shiftBy c.toNat (-32) else c]
  else match upperExpansions.find? (·.1 == c.toNat) with
    | some (_, codes) => codes.map Char.ofNat
    | none => [mapCase upperRuns c]

def isUpperChar (c : Char) : Bool :=
  if c.toNat < 128 then 'A' ≤ c && c ≤ 'Z'
  else upperCaseRuns.any fun (first, last, step) =>
    first ≤ c.toNat && c.toNat ≤ last && (c.toNat - first) % step == 0

private def isCased (c : Char) : Bool := inRuns casedRuns c.toNat

private def isCaseIgnorable (c : Char) : Bool := inRuns caseIgnorableRuns c.toNat

/-- A cased character comes first once the ignorable ones are passed. -/
private def meetsCased (t : Text) : Bool :=
  match t.dropWhile isCaseIgnorable with
  | [] => false
  | c :: _ => isCased c

/-- Lower case with the characters already passed, nearest first. -/
private def lowerFrom (passed : Text) : Text → Text
  | [] => []
  | c :: cs =>
    let low :=
      if c.toNat == 0x3A3 then
        [if meetsCased passed && !meetsCased cs then Char.ofNat 0x3C2 else Char.ofNat 0x3C3]
      else lowerChar c
    low ++ lowerFrom (c :: passed) cs

def lower (t : Text) : Text :=
  lowerFrom [] t

def upper (t : Text) : Text :=
  t.flatMap upperChar

/-- A character of ASCII that is no capital. -/
def isLowered (c : Char) : Bool :=
  c.toNat < 128 && !('A' ≤ c && c ≤ 'Z')

/-- Without a capital sigma every character is lowered on its own. -/
private theorem lowerFrom_eq_flatMap {t : Text} (h : ∀ c ∈ t, c.toNat ≠ 0x3A3) (passed : Text) :
    lowerFrom passed t = t.flatMap lowerChar := by
  induction t generalizing passed with
  | nil => rfl
  | cons c t ih =>
      have hsigma : (c.toNat == 0x3A3) = false := beq_eq_false_iff_ne.mpr (h c (by simp))
      rw [lowerFrom, ih fun d hd => h d (by simp [hd])]
      simp [hsigma]

theorem lower_eq_flatMap {t : Text} (h : ∀ c ∈ t, c.toNat ≠ 0x3A3) : lower t = t.flatMap lowerChar :=
  lowerFrom_eq_flatMap h []

theorem lowerChar_eq_self {c : Char} (h : isLowered c = true) : lowerChar c = [c] := by
  simp only [isLowered, Bool.and_eq_true, decide_eq_true_eq, Bool.not_eq_true'] at h
  simp [lowerChar, h.1, h.2]

theorem lower_eq_self {t : Text} (h : ∀ c ∈ t, isLowered c = true) : lower t = t := by
  have hsigma : ∀ c ∈ t, c.toNat ≠ 0x3A3 := by
    intro c hc
    have hascii := h c hc
    simp only [isLowered, Bool.and_eq_true, decide_eq_true_eq] at hascii
    omega
  rw [lower_eq_flatMap hsigma, List.flatMap_def,
    List.map_congr_left fun c hc => lowerChar_eq_self (h c hc), ← List.flatMap_def,
    List.flatMap_singleton']

theorem upperChar_eq_self {c : Char} (hascii : c.toNat < 128) (h : ('a' ≤ c && c ≤ 'z') = false) :
    upperChar c = [c] := by
  simp [upperChar, hascii, h]

/-- The capital of a small letter of ASCII, of which the small letter is the lower case. -/
theorem exists_capital {c : Char} (h : ('a' ≤ c && c ≤ 'z') = true) :
    ∃ u : Char, ('A' ≤ u && u ≤ 'Z') = true ∧ upperChar c = [u] ∧ lowerChar u = [c] := by
  have hrange : 97 ≤ c.toNat ∧ c.toNat ≤ 122 := by
    simpa [Char.le_def, UInt32.le_iff_toNat_le] using h
  have hsmall : c.toNat < 128 := by omega
  obtain ⟨n, hn⟩ : ∃ n, c.toNat = n + 32 := ⟨c.toNat - 32, by omega⟩
  have hcapital : (Char.ofNat n).toNat = n := by
    rw [Char.ofNat, dif_pos (.inl (by omega))]
    rfl
  have hupper : ('A' ≤ Char.ofNat n && Char.ofNat n ≤ 'Z') = true := by
    simp only [Char.le_def, UInt32.le_iff_toNat_le, Bool.and_eq_true, decide_eq_true_eq]
    change 65 ≤ (Char.ofNat n).toNat ∧ (Char.ofNat n).toNat ≤ 90
    omega
  refine ⟨Char.ofNat n, hupper, ?_, ?_⟩
  · have hshift : Int.toNat (c.toNat + -32) = n := by omega
    rw [upperChar, if_pos hsmall, if_pos h, shiftBy, hshift]
  · have hshift : Int.toNat (n + 32) = c.toNat := by omega
    rw [lowerChar, hcapital, if_pos (by omega), if_pos hupper, shiftBy, hshift, Char.ofNat_toNat]

end MarkupIds.Text
