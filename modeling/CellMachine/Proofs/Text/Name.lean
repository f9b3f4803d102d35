import CellMachine.Text.Blank
import CellMachine.Text.Name
import Mathlib.Data.List.DropRight

/-!
# Which characters stand in names

Whether a character is a letter, a digit or blank is told by ranges of code points. Classes whose
ranges lie apart have no character in common (`CodeRanges.has_of_apart`), and whether they lie apart
can be computed. So no character of a name is blank, and none that starts a name is a digit or one
of the signs that other operands begin with.
-/

namespace CellMachine.Text

namespace CodeRanges

/-- A code point of a class lies in one of its ranges. -/
theorem exists_of_has : {ranges : CodeRanges} → {n : Nat} → ranges.has n = true →
    ∃ range ∈ ranges, range.1 ≤ n ∧ n ≤ range.2
  | [], n, h => by cases h
  | (lo, hi) :: rest, n, h => by
    unfold has at h
    split at h
    · cases h
    · next hlo =>
      split at h
      · next hhi => exact ⟨(lo, hi), List.mem_cons_self .., Nat.not_lt.mp hlo, hhi⟩
      · obtain ⟨range, hmem, hinside⟩ := exists_of_has h
        exact ⟨range, List.mem_cons_of_mem _ hmem, hinside⟩

/-- No range of one class meets a range of the other. -/
def apart (a b : CodeRanges) : Bool :=
  a.all fun r => b.all fun s => r.2 < s.1 || s.2 < r.1

/-- Classes whose ranges lie apart have nothing in common. -/
theorem has_of_apart {a b : CodeRanges} (h : apart a b = true) {n : Nat} (ha : a.has n = true) :
    b.has n = false := by
  cases hb : b.has n with
  | false => rfl
  | true =>
    obtain ⟨r, hr, hrlo, hrhi⟩ := exists_of_has ha
    obtain ⟨s, hs, hslo, hshi⟩ := exists_of_has hb
    have hrs := List.all_eq_true.mp (List.all_eq_true.mp h r hr) s hs
    simp only [Bool.or_eq_true, decide_eq_true_eq] at hrs
    omega

end CodeRanges

/-- The letters and digits of names are not blank. -/
theorem apart_blankRanges :
    CodeRanges.apart blankRanges letterRanges = true ∧
      CodeRanges.apart blankRanges decimalDigitRanges = true := by
  decide +kernel

/-- No character of a name is blank. -/
theorem not_isBlank_of_continuesName {c : Char} (h : continuesName c = true) :
    isBlank c = false := by
  cases hblank : isBlank c with
  | false => rfl
  | true =>
    have hletter : isLetter c = false := CodeRanges.has_of_apart apart_blankRanges.1 hblank
    have hdigit : isDecimalDigit c = false := CodeRanges.has_of_apart apart_blankRanges.2 hblank
    simp only [continuesName, startsName, hletter, hdigit, Bool.or_false, Bool.or_eq_true,
      beq_iff_eq] at h
    rcases h with (rfl | rfl) | rfl <;> revert hblank <;> decide

/-- A text without blanks has none to be removed. -/
theorem trimBlanks_eq_self {cs : List Char} (h : ∀ c ∈ cs, isBlank c = false) :
    trimBlanks cs = cs := by
  have hdrop : ∀ {ds : List Char}, (∀ c ∈ ds, isBlank c = false) → ds.dropWhile isBlank = ds := by
    intro ds hds
    cases ds with
    | nil => rfl
    | cons d ds => exact List.dropWhile_cons_of_neg (by simp [hds d (List.mem_cons_self ..)])
  unfold trimBlanks
  rw [hdrop h, hdrop fun c hc => h c (List.mem_reverse.mp hc), List.reverse_reverse]

/-- Where no blank is at the beginning, none is removed there. -/
theorem trimBlanks_cons {c : Char} (h : isBlank c = false) (rest : List Char) :
    ∃ rest', trimBlanks (c :: rest) = c :: rest' := by
  have htrim : trimBlanks (c :: rest) = (c :: rest).rdropWhile isBlank := by
    rw [trimBlanks, List.dropWhile_cons_of_neg (by simp [h]), List.rdropWhile]
  cases hdrop : (c :: rest).rdropWhile isBlank with
  | nil =>
    have hblank := List.rdropWhile_eq_nil_iff.mp hdrop c (List.mem_cons_self ..)
    cases h.symm.trans hblank
  | cons d rest' =>
    obtain ⟨suffix, hsuffix⟩ := List.rdropWhile_prefix isBlank (c :: rest)
    rw [hdrop] at hsuffix
    obtain ⟨rfl, -⟩ := List.cons.inj hsuffix
    exact ⟨rest', htrim.trans hdrop⟩

/-- Every character of a name goes on with one. -/
theorem continuesName_of_isNameChars {cs : List Char} (h : isNameChars cs = true) :
    ∀ c ∈ cs, continuesName c = true := by
  cases cs with
  | nil => cases h
  | cons c rest =>
    simp only [isNameChars, Bool.and_eq_true, List.all_eq_true] at h
    refine List.forall_mem_cons.mpr ⟨?_, h.2⟩
    simp [continuesName, h.1]

/-- An ASCII digit goes on with a name. -/
theorem continuesName_of_isDigit {c : Char} (h : c.isDigit = true) : continuesName c = true := by
  simp only [Char.isDigit, Bool.and_eq_true, decide_eq_true_eq] at h
  have hlow : 48 ≤ c.toNat := UInt32.le_iff_toNat_le.mp h.1
  have hhigh : c.toNat ≤ 57 := UInt32.le_iff_toNat_le.mp h.2
  have hdigit : isDecimalDigit c = true := by
    unfold isDecimalDigit decimalDigitRanges CodeRanges.has
    rw [if_neg (Nat.not_lt.mpr hlow), if_pos hhigh]
  rw [continuesName, hdigit, Bool.or_true]

end CellMachine.Text
