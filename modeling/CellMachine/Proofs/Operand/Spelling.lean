import CellMachine.Operand.Parse
import CellMachine.Proofs.Source.Spelling
import CellMachine.Proofs.Text.Name
import CellMachine.Proofs.Text.Numeral
import Mathlib.Data.Int.ModEq

/-!
# The texts of operands

Operands are printed and read. The first character of a text decides how it is read, so that an
operand comes back from its text needs that the first characters of names, labels, locations and
integers differ, that no blank at an end of a text belongs to it, and that integers are printed in
the way in which literals are read, down to `-2 ^ 63`.

* `Sign`, `parseCell_ok_iff` — **which texts are cells**: a literal behind at most one sign, and the
  cell is congruent to its value.
* `parseTrimmed_of_startsInteger`, `parseTrimmed_name` — how the first character decides.
* `parseCell_toString` — a cell is read from its decimal text.
* `parseOperand_text` — **operands are read from their texts.**
-/

namespace CellMachine

/-! ### Literals with a sign -/

/-- The sign that may stand before a literal. -/
inductive Sign
  | none
  | plus
  | minus
  deriving DecidableEq, Repr

namespace Sign

/-- The text of a sign. -/
def chars : Sign → List Char
  | .none => []
  | .plus => ['+']
  | .minus => ['-']

/-- A number with a sign. -/
def apply : Sign → Nat → Int
  | .minus, n => -n
  | _, n => n

/-- A text that needs a sign before it can be taken apart: it begins with none. -/
def Bare (cs : List Char) : Prop := cs.head? ≠ some '-' ∧ cs.head? ≠ some '+'

/-- Every text is a sign and a rest, and the rest of a text without a sign begins with none. -/
theorem exists_chars (cs : List Char) :
    ∃ (sign : Sign) (body : List Char), cs = sign.chars ++ body ∧ (sign = .none → Bare body) := by
  by_cases hminus : cs.head? = some '-'
  · obtain ⟨rest, rfl⟩ := List.head?_eq_some_iff.mp hminus
    exact ⟨.minus, rest, rfl, fun h => nomatch h⟩
  · by_cases hplus : cs.head? = some '+'
    · obtain ⟨rest, rfl⟩ := List.head?_eq_some_iff.mp hplus
      exact ⟨.plus, rest, rfl, fun h => nomatch h⟩
    · exact ⟨.none, cs, rfl, fun _ => ⟨hminus, hplus⟩⟩

end Sign

/-- A literal begins with no sign. -/
theorem Text.IsLiteral.bare {cs : List Char} {n : Nat} (h : IsLiteral cs n) : Sign.Bare cs := by
  constructor
  all_goals
    intro hhead
    cases h with
    | decimal first _ _ =>
      cases hhead
      cases first.1
    | octal _ => cases hhead
    | marked _ _ _ => cases hhead

/-- The cell of a literal with a sign. -/
def Sign.cell (sign : Sign) (text : String) (n : Nat) : Except Failure Cell :=
  if sign = .minus ∧ UInt64.size / 2 < n then .error (.operandText (.negativeRange text))
  else .ok (Int64.ofInt (sign.apply n))

/-- The sign is taken off, and what is left is read as a literal. -/
theorem parseCell_of_sign {text : String} {sign : Sign} {body : List Char}
    (htext : text.toList = sign.chars ++ body) (hbody : sign = .none → Sign.Bare body) :
    parseCell text = match Text.readNumeral body with
      | .error fault => .error (.operandText (.integer text (String.ofList body) fault))
      | .ok n => sign.cell text n := by
  unfold parseCell
  rw [htext]
  cases sign with
  | none =>
    cases body with
    | nil => rfl
    | cons c rest =>
      have hc : c ≠ '-' ∧ c ≠ '+' := by simpa [Sign.Bare] using hbody rfl
      cases hread : Text.readNumeral (c :: rest) <;>
        simp [Sign.chars, Sign.cell, Sign.apply, hread, hc.1, hc.2]
  | plus =>
    cases hread : Text.readNumeral body <;>
      simp [Sign.chars, Sign.cell, Sign.apply, hread]
  | minus =>
    cases hread : Text.readNumeral body with
    | error fault => simp [Sign.chars, hread]
    | ok n =>
      by_cases hrange : UInt64.size / 2 < n
      · simp only [Sign.chars, Sign.cell, List.cons_append, List.nil_append, hread]
        simp [hrange]
      · simp only [Sign.chars, Sign.cell, List.cons_append, List.nil_append, hread]
        simp [hrange, Sign.apply]

/-- A cell is a number cut down to 64 bits if and only if it is congruent to it. -/
theorem ofInt_eq_iff {i : Int} {v : Cell} : Int64.ofInt i = v ↔ v.toInt ≡ i [ZMOD 2 ^ 64] := by
  have hv : v.toInt.bmod (2 ^ 64) = v.toInt := v.toInt_bmod
  rw [Int64.ofInt_eq_iff_bmod_eq_toInt, Int.modEq_iff_dvd]
  nth_rewrite 1 [← hv]
  rw [Int.bmod_eq_bmod_iff_bmod_sub_eq_zero, ← Int.dvd_iff_bmod_eq_zero]
  rfl

/-- **Which texts are cells**: those of an unsigned literal below `2 ^ 64` behind at most one sign,
and not below `-2 ^ 63` if the sign is a minus. The cell is congruent to the value. -/
theorem parseCell_ok_iff {text : String} {v : Cell} :
    parseCell text = .ok v ↔ ∃ (sign : Sign) (body : List Char) (n : Nat),
      text.toList = sign.chars ++ body ∧ Text.IsLiteral body n ∧ n < 2 ^ 64 ∧
        (sign = .minus → n ≤ 2 ^ 63) ∧ v.toInt ≡ sign.apply n [ZMOD 2 ^ 64] := by
  constructor
  · intro h
    obtain ⟨sign, body, htext, hbody⟩ := Sign.exists_chars text.toList
    rw [parseCell_of_sign htext hbody] at h
    cases hread : Text.readNumeral body with
    | error fault =>
      rw [hread] at h
      cases h
    | ok n =>
      obtain ⟨hliteral, hn⟩ := Text.readNumeral_ok_iff.mp hread
      simp only [hread, Sign.cell] at h
      split at h
      · cases h
      · next hrange =>
        refine ⟨sign, body, n, htext, hliteral, hn, fun hsign => ?_,
          ofInt_eq_iff.mp (Except.ok.inj h)⟩
        exact Nat.not_lt.mp fun hlt => hrange ⟨hsign, hlt⟩
  · rintro ⟨sign, body, n, htext, hliteral, hn, hrange, hvalue⟩
    have hnot : ¬(sign = .minus ∧ UInt64.size / 2 < n) := fun h =>
      Nat.not_lt.mpr (hrange h.1) h.2
    rw [parseCell_of_sign htext fun _ => hliteral.bare,
      Text.readNumeral_ok_iff.mpr ⟨hliteral, hn⟩]
    simp only [Sign.cell, if_neg hnot, ofInt_eq_iff.mpr hvalue]

/-! ### Decimal texts -/

/-- The decimal text of a cell behind the sign that the cell has is read as the cell. -/
theorem parseCell_of_toDigits {text : String} {sign : Sign} {v : Cell}
    (htext : text.toList = sign.chars ++ Nat.toDigits 10 v.toInt.natAbs)
    (hsign : sign = .minus ↔ v.toInt < 0) : parseCell text = .ok v := by
  have hlow := v.le_toInt
  have hhigh := v.toInt_lt
  have hvalue : sign.apply v.toInt.natAbs = v.toInt := by
    cases sign with
    | minus =>
      have hneg : v.toInt < 0 := hsign.mp rfl
      simp only [Sign.apply]
      omega
    | none | plus =>
      have hnonneg : ¬v.toInt < 0 := fun h => nomatch hsign.mpr h
      simp only [Sign.apply]
      omega
  refine parseCell_ok_iff.mpr ⟨sign, _, _, htext, Text.isLiteral_toDigits _, by omega, ?_, ?_⟩
  · intro _
    omega
  · rw [hvalue]

/-- The decimal text of an integer: a minus if it is negative, and digits. -/
theorem toList_toString (i : Int) :
    (toString i).toList = (if i < 0 then Sign.minus else .none).chars ++
      Nat.toDigits 10 i.natAbs := by
  rw [Int.toString_eq_repr, Int.repr_eq_if]
  by_cases hi : i < 0
  · have hnat : (-i).toNat = i.natAbs := by omega
    rw [if_pos hi, if_neg (Int.not_le.mpr hi), String.toList_append, Nat.toList_repr, hnat]
    rfl
  · have hnat : i.toNat = i.natAbs := by omega
    rw [if_neg hi, if_pos (Int.not_lt.mp hi), Nat.toList_repr, hnat]
    rfl

/-- **A cell is read from its decimal text.** -/
theorem parseCell_toString (v : Cell) : parseCell (toString v.toInt) = .ok v := by
  refine parseCell_of_toDigits (toList_toString v.toInt) ?_
  split <;> simp_all

/-! ### How the first character decides -/

/-- What starts an integer begins with a digit or a sign. -/
theorem exists_cons_of_startsInteger {cs : List Char} (h : startsInteger cs = true) :
    ∃ c rest, cs = c :: rest ∧ (c.isDigit = true ∨ c = '-' ∨ c = '+') := by
  match cs, h with
  | [c], h => exact ⟨c, [], rfl, .inl h⟩
  | c :: d :: rest, h =>
    simp only [startsInteger, Bool.or_eq_true, Bool.and_eq_true, beq_iff_eq] at h
    exact ⟨c, d :: rest, rfl, h.imp_right And.left⟩

/-- A digit starts an integer. -/
theorem startsInteger_of_isDigit {c : Char} (h : c.isDigit = true) (rest : List Char) :
    startsInteger (c :: rest) = true := by
  cases rest <;> simp [startsInteger, h]

/-- A text that starts an integer is read as one. -/
theorem parseTrimmed_of_startsInteger {cs : List Char} (h : startsInteger cs = true) :
    parseTrimmed cs = (parseCell (String.ofList cs)).map .immediate := by
  obtain ⟨c, rest, rfl, hc⟩ := exists_cons_of_startsInteger h
  have hfirst : c ≠ ':' ∧ c ≠ '&' ∧ c ≠ '\'' := by
    refine ⟨?_, ?_, ?_⟩ <;> rintro rfl <;> revert hc <;> decide
  obtain ⟨hcolon, hampersand, hquote⟩ := hfirst
  simp [parseTrimmed, h, hcolon, hampersand, hquote]

/-- What starts a name begins no other operand. -/
theorem of_startsName {c : Char} (h : Text.startsName c = true) :
    c ≠ ':' ∧ c ≠ '&' ∧ c ≠ '\'' ∧ ¬(c.isDigit = true ∨ c = '-' ∨ c = '+') := by
  have hne : ∀ {d : Char}, Text.startsName d = false → c ≠ d := by
    rintro d hd rfl
    rw [hd] at h
    cases h
  refine ⟨hne (by decide), hne (by decide), hne (by decide), ?_⟩
  rintro (hdigit | rfl | rfl)
  · have hletter := isLetter_of_low (low_of_isDigit hdigit)
    simp only [Text.startsName, hletter, Bool.or_false, Bool.or_eq_true, beq_iff_eq] at h
    rcases h with (rfl | rfl) | rfl <;> revert hdigit <;> decide
  · exact hne (by decide) rfl
  · exact hne (by decide) rfl

/-- A name starts no integer. -/
theorem startsInteger_of_isNameChars {cs : List Char} (h : Text.isNameChars cs = true) :
    startsInteger cs = false := by
  by_contra hstarts
  obtain ⟨c, rest, rfl, hc⟩ := exists_cons_of_startsInteger (by simpa using hstarts)
  simp only [Text.isNameChars, Bool.and_eq_true] at h
  exact (of_startsName h.1).2.2.2 hc

/-- A name alone is read as the contents of a variable. -/
theorem parseTrimmed_name {cs : List Char} (h : Text.isNameChars cs = true) :
    parseTrimmed cs = .ok (.contents (.named (String.ofList cs))) := by
  have hinteger := startsInteger_of_isNameChars h
  cases cs with
  | nil => cases h
  | cons c rest =>
    have hname := h
    simp only [Text.isNameChars, Bool.and_eq_true] at h
    obtain ⟨hcolon, hampersand, hquote, -⟩ := of_startsName h.1
    simp [parseTrimmed, hinteger, hname, hcolon, hampersand, hquote]

/-- No character of a name is blank, so nothing is removed from one. -/
theorem not_isBlank_of_isNameChars {cs : List Char} (h : Text.isNameChars cs = true) :
    ∀ c ∈ cs, Text.isBlank c = false := fun c hc =>
  Text.not_isBlank_of_continuesName (Text.continuesName_of_isNameChars h c hc)

/-- A name behind `&` is read as the location of a variable. -/
theorem parseTrimmed_location {cs : List Char} (h : Text.isNameChars cs = true) :
    parseTrimmed ('&' :: cs) = .ok (.location (.named (String.ofList cs))) := by
  have htrim := Text.trimBlanks_eq_self (not_isBlank_of_isNameChars h)
  have hinteger := startsInteger_of_isNameChars h
  have hempty : cs.isEmpty = false := by
    cases cs with
    | nil => cases h
    | cons c rest => rfl
  simp [parseTrimmed, htrim, hempty, hinteger, h]

/-- A name behind `:` is read as a label. -/
theorem parseTrimmed_label {cs : List Char} (h : Text.isNameChars cs = true) :
    parseTrimmed (':' :: cs) = .ok (.label (String.ofList cs)) := by
  simp [parseTrimmed, h]

/-! ### Operands and their texts -/

/-- Operands that a source can state by name: the raw locations are left out, and so are names that
are none. -/
def Operand.Named : Operand → Prop
  | .immediate _ => True
  | .location (.named name) | .contents (.named name) | .label name => Text.isName name = true
  | .location (.raw _) | .contents (.raw _) => False

/-- A text without blanks at its ends is read as it stands. -/
theorem parseOperand_eq {text : String} (h : ∀ c ∈ text.toList, Text.isBlank c = false) :
    parseOperand text = parseTrimmed text.toList := by
  unfold parseOperand
  rw [Text.trimBlanks_eq_self h]

/-- No character of a decimal text is blank. -/
theorem not_isBlank_of_toString (i : Int) : ∀ c ∈ (toString i).toList, Text.isBlank c = false := by
  intro c hc
  rw [toList_toString, List.mem_append] at hc
  rcases hc with hsign | hdigit
  · split at hsign
    · obtain rfl := List.mem_singleton.mp hsign
      decide
    · cases hsign
  · have hdigit : c.isDigit = true := Nat.isDigit_of_mem_toDigits (by decide) (by decide) hdigit
    exact Text.not_isBlank_of_continuesName (Text.continuesName_of_isDigit hdigit)

/-- The decimal text of an integer starts one. -/
theorem startsInteger_toString (i : Int) : startsInteger (toString i).toList = true := by
  obtain ⟨c, rest, hdigits⟩ := List.exists_cons_of_ne_nil (Nat.toDigits_ne_nil (b := 10)
    (n := i.natAbs))
  have hc : c.isDigit = true :=
    Nat.isDigit_of_mem_toDigits (by decide) (by decide) (hdigits ▸ List.mem_cons_self ..)
  rw [toList_toString, hdigits]
  split
  · simp [Sign.chars, startsInteger, hc]
  · exact startsInteger_of_isDigit hc rest

/-- **An operand is read from its text.** -/
theorem Operand.Named.parseOperand_text {op : Operand} (h : op.Named) :
    parseOperand op.text = .ok op := by
  have hmark : ∀ (mark : Char) (name : String), Text.isBlank mark = false →
      Text.isNameChars name.toList = true →
      ∀ c ∈ mark :: name.toList, Text.isBlank c = false := fun mark name hmark hname =>
    List.forall_mem_cons.mpr ⟨hmark, not_isBlank_of_isNameChars hname⟩
  match op, h with
  | .immediate v, _ =>
    rw [Operand.text, parseOperand_eq (not_isBlank_of_toString v.toInt),
      parseTrimmed_of_startsInteger (startsInteger_toString v.toInt), String.ofList_toList,
      parseCell_toString]
    rfl
  | .contents (.named name), h =>
    rw [Operand.text, SymbolRef.text, parseOperand_eq (not_isBlank_of_isNameChars h),
      parseTrimmed_name h, String.ofList_toList]
  | .location (.named name), h =>
    have htext : (Operand.location (.named name)).text.toList = '&' :: name.toList := by
      simp [Operand.text, SymbolRef.text]
    rw [parseOperand_eq (htext ▸ hmark '&' name (by decide) h), htext, parseTrimmed_location h,
      String.ofList_toList]
  | .label name, h =>
    have htext : (Operand.label name).text.toList = ':' :: name.toList := by
      simp [Operand.text]
    rw [parseOperand_eq (htext ▸ hmark ':' name (by decide) h), htext, parseTrimmed_label h,
      String.ofList_toList]

/-- **Operands come back from their texts, and literals wrap around.** Every immediate operand, and
every location, variable and label with a name, is read from its text. A text is a cell if and only
if it is an unsigned literal below `2 ^ 64` behind at most one sign, not beyond `2 ^ 63` if the sign
is a minus; the cell is congruent to the value of the literal with its sign. -/
theorem operand_texts_and_literals :
    (∀ op : Operand, op.Named → parseOperand op.text = .ok op) ∧
      ∀ (text : String) (v : Cell), parseCell text = .ok v ↔
        ∃ (sign : Sign) (body : List Char) (n : Nat),
          text.toList = sign.chars ++ body ∧ Text.IsLiteral body n ∧ n < 2 ^ 64 ∧
            (sign = .minus → n ≤ 2 ^ 63) ∧ v.toInt ≡ sign.apply n [ZMOD 2 ^ 64] :=
  ⟨fun _ h => h.parseOperand_text, fun _ _ => parseCell_ok_iff⟩

/-- The least cell, a name with letters of two scripts, and a literal that wraps around. -/
theorem operand_texts_and_literals_sample :
    parseOperand "-9223372036854775808" = .ok (.immediate Int64.minValue) ∧
      parseOperand "&.größe_λ9" = .ok (.location (.named ".größe_λ9")) ∧
      parseCell "+0xFFFF_FFFF_FFFF_FFFE" = .ok (-2) := by
  obtain ⟨htexts, hcells⟩ := operand_texts_and_literals
  have hname : Text.isName ".größe_λ9" = true := by decide +kernel
  have hread : Text.readNumeral "0xFFFF_FFFF_FFFF_FFFE".toList = .ok (2 ^ 64 - 2) := by
    decide +kernel
  have hliteral := (Text.readNumeral_ok_iff.mp hread).1
  have hcell : parseCell "+0xFFFF_FFFF_FFFF_FFFE" = .ok (-2) :=
    (hcells _ _).mpr ⟨.plus, _, _, rfl, hliteral, by decide, by decide, by decide⟩
  exact ⟨htexts (.immediate Int64.minValue) trivial,
    htexts (.location (.named ".größe_λ9")) hname, hcell⟩

end CellMachine
