import CellMachine.Text.Numeral
import Mathlib.Tactic.Push
import Mathlib.Tactic.SplitIfs

/-!
# The grammar of integer literals

An integer literal is read by a loop that skips underscores and checks afterwards where they stood.
The module gives the grammar that the loop stands for, and shows that the loop accepts the literals
of the grammar whose value fits 64 bits, and nothing else.

* `MoreDigits` — digits behind a digit, each perhaps behind one underscore.
* `IsLiteral` — decimal, octal and marked literals with their values.
* `accepted_iff` — what the loop and the check of the underscores accept together.
* `readNumeral_ok_iff` — **a literal is read if and only if it is one of the grammar below
  `2 ^ 64`**, and then with its value.
* `isLiteral_toDigits` — a number written in base ten is a literal.
-/

namespace CellMachine.Text

/-! ### The grammar -/

/-- A digit of a base and its value. -/
def IsDigitOf (base : Nat) (c : Char) (d : Nat) : Prop := digitValue? c = some d ∧ d < base

/-- What may follow a digit or a base mark: more digits, each perhaps behind one underscore. `acc`
is the value of the digits before them and `n` the value of all. -/
inductive MoreDigits (base : Nat) : (acc : Nat) → List Char → (n : Nat) → Prop
  | done (acc : Nat) : MoreDigits base acc [] acc
  | digit {acc d n : Nat} {c : Char} {rest : List Char} (head : IsDigitOf base c d)
    (tail : MoreDigits base (base * acc + d) rest n) : MoreDigits base acc (c :: rest) n
  | apart {acc d n : Nat} {c : Char} {rest : List Char} (head : IsDigitOf base c d)
    (tail : MoreDigits base (base * acc + d) rest n) : MoreDigits base acc ('_' :: c :: rest) n

/-- The base that a letter behind a leading zero stands for. -/
def markBase? (c : Char) : Option Nat :=
  if c = 'b' ∨ c = 'B' then some 2
  else if c = 'o' ∨ c = 'O' then some 8
  else if c = 'x' ∨ c = 'X' then some 16
  else none

/-- The unsigned integer literals and their values: decimal ones, which do not begin with a zero,
octal ones behind a zero (the zero alone is one of them), and literals behind a base mark. -/
inductive IsLiteral : List Char → Nat → Prop
  | decimal {c : Char} {d n : Nat} {rest : List Char} (first : IsDigitOf 10 c d) (pos : 0 < d)
    (more : MoreDigits 10 d rest n) : IsLiteral (c :: rest) n
  | octal {n : Nat} {rest : List Char} (more : MoreDigits 8 0 rest n) : IsLiteral ('0' :: rest) n
  | marked {mark : Char} {base n : Nat} {rest : List Char} (hmark : markBase? mark = some base)
    (hrest : rest ≠ []) (more : MoreDigits base 0 rest n) : IsLiteral ('0' :: mark :: rest) n

/-! ### Digits -/

/-- An underscore is no digit. -/
theorem IsDigitOf.ne_underscore {base d : Nat} {c : Char} (h : IsDigitOf base c d) : c ≠ '_' := by
  rintro rfl
  cases h.1

/-- Only the zero has the value zero. -/
theorem digitValue?_eq_zero {c : Char} (h : digitValue? c = some 0) : c = '0' := by
  unfold digitValue? at h
  split at h
  · next hdigit =>
    rw [Option.some.injEq] at h
    have hlow : '0'.toNat ≤ c.toNat := UInt32.le_iff_toNat_le.mp hdigit.1
    exact Char.toNat_inj.mp (by omega)
  · split at h
    · rw [Option.some.injEq] at h
      omega
    · split at h
      · rw [Option.some.injEq] at h
        omega
      · cases h

/-- A digit as it is written in base ten. -/
theorem isDigitOf_digitChar {d : Nat} (h : d < 10) : IsDigitOf 10 (Nat.digitChar d) d := by
  refine ⟨?_, h⟩
  match d, h with
  | 0, _ | 1, _ | 2, _ | 3, _ | 4, _ | 5, _ | 6, _ | 7, _ | 8, _ | 9, _ => rfl

namespace MoreDigits

variable {base acc n : Nat} {cs rest : List Char} {c : Char}

/-- Digits do not make a number smaller. -/
theorem le (hbase : 0 < base) (h : MoreDigits base acc cs n) : acc ≤ n := by
  induction h with
  | done acc => exact Nat.le_refl acc
  | @digit acc d n c rest _ _ ih | @apart acc d n c rest _ _ ih =>
    have hmul : acc ≤ base * acc := Nat.le_mul_of_pos_left acc hbase
    omega

/-- One more digit at the end. -/
theorem concat {d : Nat} (hc : IsDigitOf base c d) (h : MoreDigits base acc cs n) :
    MoreDigits base acc (cs ++ [c]) (base * n + d) := by
  induction h with
  | done acc => exact .digit hc (.done _)
  | digit head _ ih => exact .digit head ih
  | apart head _ ih => exact .apart head ih

/-- A character that is no underscore is a digit. -/
theorem cons_iff (hc : c ≠ '_') : MoreDigits base acc (c :: rest) n ↔
    ∃ d, IsDigitOf base c d ∧ MoreDigits base (base * acc + d) rest n := by
  constructor
  · intro h
    cases h with
    | digit head tail => exact ⟨_, head, tail⟩
    | apart head tail => exact absurd rfl hc
  · rintro ⟨d, head, tail⟩
    exact .digit head tail

/-- Behind an underscore comes a digit. -/
theorem underscore_iff : MoreDigits base acc ('_' :: rest) n ↔
    rest.head? ≠ some '_' ∧ rest ≠ [] ∧ MoreDigits base acc rest n := by
  constructor
  · intro h
    cases h with
    | digit head _ => exact absurd rfl head.ne_underscore
    | apart head tail =>
      exact ⟨fun h => head.ne_underscore (Option.some.inj h), List.cons_ne_nil _ _,
        .digit head tail⟩
  · rintro ⟨hhead, hrest, h⟩
    cases h with
    | done => exact absurd rfl hrest
    | digit head tail => exact .apart head tail
    | apart _ _ => exact absurd rfl hhead

end MoreDigits

/-- Behind a character that is no underscore an underscore may stand. -/
theorem underscoresSeparate_cons {afterDigit : Bool} {c : Char} (hc : c ≠ '_')
    (rest : List Char) :
    underscoresSeparate afterDigit (c :: rest) = underscoresSeparate true rest := by
  rw [underscoresSeparate]
  · intro _ _ h _
    exact hc h
  · intro h _
    exact hc h

/-- What the loop and the check of the underscores accept together. -/
def Accepted (base : Nat) (afterDigit : Bool) (acc : Nat) (cs : List Char) (n : Nat) : Prop :=
  readDigits base acc cs = .ok n ∧ underscoresSeparate afterDigit cs = true

namespace Accepted

variable {base acc n : Nat} {afterDigit : Bool} {rest : List Char} {c : Char}

/-- A digit that is accepted goes to the value, which must stay below `2 ^ 64`. -/
theorem cons_iff (hc : c ≠ '_') : Accepted base afterDigit acc (c :: rest) n ↔
    ∃ d, IsDigitOf base c d ∧ base * acc + d < UInt64.size ∧
      Accepted base true (base * acc + d) rest n := by
  unfold Accepted IsDigitOf
  rw [underscoresSeparate_cons hc]
  cases hdigit : digitValue? c with
  | none => simp [readDigits, hdigit]
  | some d =>
    simp only [Option.some.injEq, and_assoc, exists_eq_left']
    by_cases hbase : base ≤ d
    · simp [readDigits, hdigit, hbase, Nat.not_lt.mpr hbase]
    · by_cases hsize : UInt64.size ≤ base * acc + d
      · simp [readDigits, hdigit, hbase, hsize, Nat.not_lt.mpr hsize]
      · simp [readDigits, hdigit, hbase, hsize, Nat.lt_of_not_le hbase, Nat.lt_of_not_le hsize]

/-- Behind an underscore comes something else, and the value does not change. -/
theorem underscore_iff : Accepted base true acc ('_' :: rest) n ↔
    rest.head? ≠ some '_' ∧ rest ≠ [] ∧ Accepted base true acc rest n := by
  have hread : readDigits base acc ('_' :: rest) = readDigits base acc rest := by
    rw [readDigits]
  unfold Accepted
  rw [hread]
  cases rest with
  | nil => simp [underscoresSeparate]
  | cons c rest =>
    by_cases hc : c = '_'
    · simp [underscoresSeparate, hc]
    · simp [underscoresSeparate, hc, underscoresSeparate_cons hc]

end Accepted

/-- **What is accepted behind a digit or a mark** is more digits, with a value below `2 ^ 64`. -/
theorem accepted_iff {base acc n : Nat} {cs : List Char} (hbase : 0 < base)
    (hacc : acc < UInt64.size) :
    Accepted base true acc cs n ↔ MoreDigits base acc cs n ∧ n < UInt64.size := by
  induction cs generalizing acc with
  | nil =>
    constructor
    · rintro ⟨h, -⟩
      cases h
      exact ⟨.done _, hacc⟩
    · rintro ⟨h, -⟩
      cases h
      exact ⟨rfl, rfl⟩
  | cons c rest ih =>
    by_cases hc : c = '_'
    · subst hc
      rw [Accepted.underscore_iff, MoreDigits.underscore_iff, ih hacc]
      simp only [and_assoc]
    · rw [Accepted.cons_iff hc, MoreDigits.cons_iff hc]
      constructor
      · rintro ⟨d, hd, hlt, h⟩
        obtain ⟨hmore, hn⟩ := (ih hlt).mp h
        exact ⟨⟨d, hd, hmore⟩, hn⟩
      · rintro ⟨⟨d, hd, hmore⟩, hn⟩
        have hlt : base * acc + d < UInt64.size := Nat.lt_of_le_of_lt (hmore.le hbase) hn
        exact ⟨d, hd, hlt, (ih hlt).mpr ⟨hmore, hn⟩⟩

/-! ### Base marks -/

/-- A base mark is no octal digit and no underscore, and its base is not zero. -/
theorem of_markBase? {mark : Char} {base : Nat} (h : markBase? mark = some base) :
    0 < base ∧ mark ≠ '_' ∧ ∀ d, ¬IsDigitOf 8 mark d := by
  have hmark : (mark ∈ ['b', 'B', 'o', 'O', 'x', 'X']) ∧ 0 < base := by
    unfold markBase? at h
    split_ifs at h with hb ho hx <;> cases h
    · exact ⟨by rcases hb with rfl | rfl <;> decide, by decide⟩
    · exact ⟨by rcases ho with rfl | rfl <;> decide, by decide⟩
    · exact ⟨by rcases hx with rfl | rfl <;> decide, by decide⟩
  obtain ⟨hmem, hbase⟩ := hmark
  refine ⟨hbase, ?_, ?_⟩
  · rintro rfl
    revert hmem
    decide
  · rintro d ⟨hd, hlt⟩
    simp only [List.mem_cons, List.not_mem_nil, or_false] at hmem
    rcases hmem with rfl | rfl | rfl | rfl | rfl | rfl <;>
    · cases hd
      omega

/-- A mark is cut off if something stands behind it. -/
theorem splitBase_marked {mark : Char} {base : Nat} {rest : List Char}
    (hmark : markBase? mark = some base) (hrest : rest ≠ []) :
    splitBase ('0' :: mark :: rest) = (base, true, rest) := by
  obtain ⟨d, more, rfl⟩ := List.exists_cons_of_ne_nil hrest
  unfold markBase? at hmark
  unfold splitBase
  split_ifs at hmark with hb ho hx
  · cases hmark
    exact if_pos hb
  · cases hmark
    exact (if_neg hb).trans (if_pos ho)
  · cases hmark
    exact ((if_neg hb).trans (if_neg ho)).trans (if_pos hx)

/-- Without a mark a leading zero alone is cut off. -/
theorem splitBase_octal {rest : List Char}
    (h : ∀ mark more, rest = mark :: more → more ≠ [] → markBase? mark = none) :
    splitBase ('0' :: rest) = (8, false, rest) := by
  match rest with
  | [] => rfl
  | [_] => rfl
  | mark :: d :: more =>
    have hmark := h mark (d :: more) rfl (List.cons_ne_nil _ _)
    unfold markBase? at hmark
    split_ifs at hmark with hb ho hx
    exact ((if_neg hb).trans (if_neg ho)).trans (if_neg hx)

/-- Nothing is cut off from a text that does not begin with a zero. -/
theorem splitBase_decimal {c : Char} (hc : c ≠ '0') (rest : List Char) :
    splitBase (c :: rest) = (10, false, c :: rest) := by
  unfold splitBase
  split <;> simp_all

/-! ### Literals -/

namespace IsLiteral

variable {n : Nat} {rest : List Char}

/-- Behind a mark stand digits of its base. -/
theorem marked_iff {mark : Char} {base : Nat} (hmark : markBase? mark = some base)
    (hrest : rest ≠ []) : IsLiteral ('0' :: mark :: rest) n ↔ MoreDigits base 0 rest n := by
  obtain ⟨-, hunder, hdigit⟩ := of_markBase? hmark
  refine ⟨fun h => ?_, .marked hmark hrest⟩
  cases h with
  | decimal first pos _ =>
    cases first.1
    exact absurd pos (Nat.lt_irrefl 0)
  | octal more =>
    obtain ⟨d, hd, -⟩ := (MoreDigits.cons_iff hunder).mp more
    exact absurd hd (hdigit d)
  | marked hmark' _ more =>
    rw [hmark] at hmark'
    cases hmark'
    exact more

/-- Behind a leading zero without a mark stand octal digits. -/
theorem octal_iff (h : ∀ mark more, rest = mark :: more → more ≠ [] → markBase? mark = none) :
    IsLiteral ('0' :: rest) n ↔ MoreDigits 8 0 rest n := by
  refine ⟨fun hlit => ?_, .octal⟩
  cases hlit with
  | decimal first pos _ =>
    cases first.1
    exact absurd pos (Nat.lt_irrefl 0)
  | octal more => exact more
  | marked hmark hrest _ =>
    rw [h _ _ rfl hrest] at hmark
    cases hmark

/-- A literal that does not begin with a zero has decimal digits. -/
theorem decimal_iff {c : Char} (hc : c ≠ '0') : IsLiteral (c :: rest) n ↔
    ∃ d, IsDigitOf 10 c d ∧ MoreDigits 10 d rest n := by
  constructor
  · intro h
    cases h with
    | decimal first _ more => exact ⟨_, first, more⟩
    | octal _ => exact absurd rfl hc
    | marked _ _ _ => exact absurd rfl hc
  · rintro ⟨d, first, more⟩
    have hpos : 0 < d := by
      refine Nat.pos_of_ne_zero ?_
      rintro rfl
      exact hc (digitValue?_eq_zero first.1)
    exact .decimal first hpos more

end IsLiteral

/-- What is accepted as a literal, once the base is known. -/
theorem readNumeral_of_splitBase {cs digits : List Char} {base n : Nat} {marked : Bool}
    (hcs : cs ≠ []) (hsplit : splitBase cs = (base, marked, digits)) :
    readNumeral cs = .ok n ↔ Accepted base (marked || base == 8) 0 digits n := by
  have hempty : ¬cs.isEmpty = true := by simpa using hcs
  unfold readNumeral Accepted
  rw [if_neg hempty, hsplit]
  dsimp only
  cases readDigits base 0 digits with
  | error fault => simp
  | ok value =>
    dsimp only
    split <;> simp_all

/-- **A literal is read if and only if it is one of the grammar with a value below `2 ^ 64`**, and
then with its value. -/
theorem readNumeral_ok_iff {cs : List Char} {n : Nat} :
    readNumeral cs = .ok n ↔ IsLiteral cs n ∧ n < UInt64.size := by
  have hsize : 0 < UInt64.size := by decide
  cases cs with
  | nil => exact iff_of_false (fun h => nomatch h) (fun h => nomatch h.1)
  | cons c rest =>
    have hcs : c :: rest ≠ [] := List.cons_ne_nil c rest
    by_cases hzero : c = '0'
    · subst hzero
      by_cases hmark : ∀ mark more, rest = mark :: more → more ≠ [] → markBase? mark = none
      · rw [readNumeral_of_splitBase hcs (splitBase_octal hmark), IsLiteral.octal_iff hmark]
        exact accepted_iff (by decide) hsize
      · push Not at hmark
        obtain ⟨mark, more, rfl, hmore, hsome⟩ := hmark
        obtain ⟨base, hbase⟩ := Option.ne_none_iff_exists'.mp hsome
        rw [readNumeral_of_splitBase hcs (splitBase_marked hbase hmore), Bool.true_or,
          IsLiteral.marked_iff hbase hmore]
        exact accepted_iff (of_markBase? hbase).1 hsize
    · rw [readNumeral_of_splitBase hcs (splitBase_decimal hzero rest), IsLiteral.decimal_iff hzero]
      by_cases hunder : c = '_'
      · subst hunder
        -- an underscore at the start is neither skipped nor a digit
        refine iff_of_false ?_ ?_
        · rintro ⟨-, hcheck⟩
          revert hcheck
          cases rest <;> simp [underscoresSeparate]
        · rintro ⟨⟨d, hd, -⟩, -⟩
          exact hd.ne_underscore rfl
      · rw [Accepted.cons_iff hunder]
        constructor
        · rintro ⟨d, hd, hlt, hrest⟩
          rw [Nat.mul_zero, Nat.zero_add] at hlt hrest
          obtain ⟨hmore, hn⟩ := (accepted_iff (by decide) hlt).mp hrest
          exact ⟨⟨d, hd, hmore⟩, hn⟩
        · rintro ⟨⟨d, hd, hmore⟩, hn⟩
          have hlt : d < UInt64.size := Nat.lt_of_le_of_lt (hmore.le (by decide)) hn
          refine ⟨d, hd, ?_, ?_⟩ <;> rw [Nat.mul_zero, Nat.zero_add]
          · exact hlt
          · exact (accepted_iff (by decide) hlt).mpr ⟨hmore, hn⟩

/-! ### Numbers as they are written -/

/-- A number from one on, written in base ten, has a first digit that is no zero, and more. -/
theorem exists_cons_of_toDigits {n : Nat} (hn : 0 < n) :
    ∃ c d rest, Nat.toDigits 10 n = c :: rest ∧ IsDigitOf 10 c d ∧ 0 < d ∧
      MoreDigits 10 d rest n := by
  induction n using Nat.strongRecOn with
  | ind n ih =>
    by_cases hsmall : n < 10
    · exact ⟨_, n, [], Nat.toDigits_of_lt_base hsmall, isDigitOf_digitChar hsmall, hn, .done n⟩
    · obtain ⟨c, d, rest, hdigits, hc, hd, hmore⟩ := ih (n / 10) (by omega) (by omega)
      have hlast : IsDigitOf 10 (Nat.digitChar (n % 10)) (n % 10) :=
        isDigitOf_digitChar (Nat.mod_lt n (by decide))
      have hvalue : 10 * (n / 10) + n % 10 = n := Nat.div_add_mod n 10
      refine ⟨c, d, rest ++ [Nat.digitChar (n % 10)], ?_, hc, hd, ?_⟩
      · rw [Nat.toDigits_of_base_le (by decide) (by omega), hdigits, List.cons_append]
      · have hall := hmore.concat hlast
        rwa [hvalue] at hall

/-- **A number that is written in base ten is a literal** with the number as its value. -/
theorem isLiteral_toDigits (n : Nat) : IsLiteral (Nat.toDigits 10 n) n := by
  by_cases hn : 0 < n
  · obtain ⟨c, d, rest, hdigits, hc, hd, hmore⟩ := exists_cons_of_toDigits hn
    rw [hdigits]
    exact .decimal hc hd hmore
  · obtain rfl : n = 0 := by omega
    exact .octal (.done 0)

end CellMachine.Text
