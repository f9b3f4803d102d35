import CellMachine.Proofs.Instruction.Reading
import CellMachine.Proofs.Operand.Spelling
import CellMachine.Proofs.Text.Hexadecimal
import CellMachine.Proofs.Text.Words

/-!
# The words of a listing's lines

A line of a listing shows one reading: the address, and then the mnemonic with its operands, a lone
cell with its bits, or what is cut off. The words of a line tell which of the three it is, for a
mnemonic begins with a capital letter and the text of a number does not; and as every number can be
read back from its text, they tell the whole reading.

* `Op.mnemonic_injective`, `Op.opcodeText_eq_iff` — which instruction a name is the name of.
* `Addr.text_inj`, `Decoded.operandText_inj` — addresses and operands from their texts.
* `Reading.wordsOf_text` — **the words of a line**; `linesOf_listing` — it is one line.
* `Reading.text_inj` — **a line tells its reading**, once its offset is known.
-/

namespace CellMachine

open Text

/-! ### Number texts -/

/-- A character with which neither a mnemonic begins nor a comment. -/
def Text.startsFigure (c : Char) : Bool := !c.isUpper && c != ';'

/-- The text of a number: a word that begins as no mnemonic does. -/
structure Text.IsFigure (w : List Char) : Prop extends IsWord w where
  starts : w.head?.all startsFigure = true

/-- A first character and what is behind it in which there are no blanks. -/
theorem Text.IsFigure.cons {c : Char} {v : List Char} (hc : (startsFigure c && isSolid c) = true)
    (hv : v.all isSolid = true) : IsFigure (c :: v) where
  nonempty := List.cons_ne_nil c v
  solid := by
    rw [List.all_cons, hv, (Bool.and_eq_true_iff.mp hc).2]
    rfl
  starts := (Bool.and_eq_true_iff.mp hc).1

/-- A number text with something behind it in which there are no blanks. -/
theorem Text.IsFigure.append {w v : List Char} (h : IsFigure w) (hv : v.all isSolid = true) :
    IsFigure (w ++ v) where
  toIsWord := h.toIsWord.append hv
  starts := by
    obtain ⟨c, rest, rfl⟩ := List.exists_cons_of_ne_nil h.nonempty
    exact h.starts

/-- A hexadecimal digit is neither a blank nor a line end. -/
theorem Text.isSolid_of_hexValue? {c : Char} (h : (hexValue? c).isSome) : isSolid c = true :=
  isSolid_of_class (p := fun c => (hexValue? c).isSome) rfl rfl h

/-- A column of digits is without blanks. -/
theorem Text.solid_column (width n : Nat) :
    (padLeft '0' width (hexUpper n)).toList.all isSolid = true :=
  List.all_eq_true.mpr fun c hc => isSolid_of_hexValue? (isSome_hexValue?_of_mem_column c hc)

/-- The bits of a lone cell are one word. -/
theorem Text.isWord_bits (n : Nat) : IsWord ('0' :: 'x' :: (hexUpper n).toList) where
  nonempty := List.cons_ne_nil _ _
  solid := List.all_eq_true.mpr <| List.forall_mem_cons.mpr ⟨rfl, List.forall_mem_cons.mpr
    ⟨rfl, fun c hc =>
      isSolid_of_hexValue? (isSome_hexValue?_of_hexNumber? (hexNumber?_hexUpper n) c hc)⟩⟩

namespace Addr

/-- The characters of an address. -/
theorem toList_text (a : Addr) : (text a).toList = '@' ::
    if a.toInt < 0 then '-' :: (padLeft '0' 3 (hexUpper a.toInt.natAbs)).toList
    else (padLeft '0' 4 (hexUpper a.toInt.natAbs)).toList := by
  unfold text
  split <;> simp

/-- The text of an address is one word. -/
theorem isFigure_text (a : Addr) : IsFigure (text a).toList := by
  rw [toList_text]
  refine .cons rfl ?_
  split
  · exact Bool.and_eq_true_iff.mpr ⟨rfl, solid_column _ _⟩
  · exact solid_column _ _

/-- A column is not what stands behind the minus sign of an address. -/
theorem column_ne_minus {width n : Nat} {cs : List Char} :
    (padLeft '0' width (hexUpper n)).toList ≠ '-' :: cs := by
  intro h
  have hminus : '-' ∈ (padLeft '0' width (hexUpper n)).toList := h ▸ List.mem_cons_self ..
  have hdigit := isSome_hexValue?_of_mem_column '-' hminus
  cases hdigit

/-- **Addresses that differ have texts that differ.** -/
theorem text_inj {a b : Addr} (h : text a = text b) : a = b := by
  have hchars := congrArg String.toList h
  rw [toList_text, toList_text] at hchars
  obtain ⟨-, hrest⟩ := List.cons.inj hchars
  by_cases ha : a.toInt < 0 <;> by_cases hb : b.toInt < 0
  · rw [if_pos ha, if_pos hb] at hrest
    have habs := column_inj (String.toList_inj.mp (List.cons.inj hrest).2)
    exact Int64.toInt_inj.mp (by omega)
  · rw [if_pos ha, if_neg hb] at hrest
    exact absurd hrest.symm column_ne_minus
  · rw [if_neg ha, if_pos hb] at hrest
    exact absurd hrest column_ne_minus
  · rw [if_neg ha, if_neg hb] at hrest
    have habs := column_inj (String.toList_inj.mp hrest)
    exact Int64.toInt_inj.mp (by omega)

end Addr

/-- No digit is a capital letter. -/
theorem isUpper_of_isDigit {c : Char} (h : c.isDigit = true) : c.isUpper = false := by
  refine Bool.eq_false_iff.mpr fun hupper => ?_
  have hcapital : 'A'.val ≤ c.val ∧ c.val ≤ 'Z'.val := of_decide_eq_true hupper
  simp only [Char.isDigit, Bool.and_eq_true, decide_eq_true_eq] at h
  have hlow : 65 ≤ c.val.toNat := UInt32.le_iff_toNat_le.mp hcapital.1
  have hhigh : c.val.toNat ≤ 57 := UInt32.le_iff_toNat_le.mp h.2
  omega

/-- A decimal text is without blanks. -/
theorem solid_toString (i : Int) : (toString i).toList.all isSolid = true := by
  refine List.all_eq_true.mpr fun c hc => ?_
  have hblank : (!isBlank c) = true := by rw [not_isBlank_of_toString i c hc, Bool.not_false]
  exact isSolid_of_class (p := fun c => !isBlank c) (by decide) (by decide) hblank

/-- A decimal text is one word. -/
theorem isFigure_toString (i : Int) : IsFigure (toString i).toList := by
  obtain ⟨c, rest, hchars, hc⟩ := exists_cons_of_startsInteger (startsInteger_toString i)
  refine ⟨⟨?_, solid_toString i⟩, ?_⟩
  · rw [hchars]
    exact List.cons_ne_nil c rest
  · rw [hchars]
    rcases hc with hdigit | rfl | rfl
    · have hsemicolon : c ≠ ';' := by
        rintro rfl
        cases hdigit
      have hupper := isUpper_of_isDigit hdigit
      simp [startsFigure, hupper, hsemicolon]
    · rfl
    · rfl

/-- A decimal text with its sign is without blanks. -/
theorem solid_signedDecimal (i : Int) : (signedDecimal i).toList.all isSolid = true := by
  unfold signedDecimal
  split
  · exact solid_toString i
  · rw [String.toList_append, List.all_append, solid_toString]
    rfl

/-- A decimal text with its sign is read as the number. -/
theorem parseCell_signedDecimal (v : Cell) : parseCell (signedDecimal v.toInt) = .ok v := by
  unfold signedDecimal
  split
  · exact parseCell_toString v
  · next hv =>
    have htext : ("+" ++ toString v.toInt).toList =
        Sign.plus.chars ++ Nat.toDigits 10 v.toInt.natAbs := by
      rw [String.toList_append, toList_toString, if_neg hv]
      rfl
    exact parseCell_of_toDigits htext (iff_of_false (fun h => nomatch h) hv)

namespace Decoded

/-- The text of an operand is one word. -/
theorem isFigure_operandText (op : Op) (slot : Kind) (v : Cell) :
    IsFigure (operandText op slot v).toList := by
  unfold operandText
  split
  · split
    · rw [String.toList_append, String.toList_append, List.append_assoc]
      refine .cons (v := ['F', 'P'] ++ _) rfl ?_
      rw [List.all_append, List.all_append, solid_signedDecimal]
      rfl
    · exact Addr.isFigure_text v
  · exact isFigure_toString v.toInt

/-- **Operands that differ have texts that differ.** -/
theorem operandText_inj {op : Op} {slot : Kind} {v w : Cell}
    (h : operandText op slot v = operandText op slot w) : v = w := by
  unfold operandText at h
  split at h
  · split at h
    · have hsigned : signedDecimal v.toInt = signedDecimal w.toInt := by
        simpa using h
      have hv := parseCell_signedDecimal v
      rw [hsigned, parseCell_signedDecimal] at hv
      exact (Except.ok.inj hv).symm
    · exact Addr.text_inj h
  · have hv := parseCell_toString v
    rw [h, parseCell_toString] at hv
    exact (Except.ok.inj hv).symm

end Decoded

/-! ### Names -/

namespace Op

/-- A mnemonic begins with a capital letter, and has capital letters and dots in it. -/
theorem mnemonic_spelled (op : Op) : op.mnemonic.toList.head?.any Char.isUpper = true ∧
    op.mnemonic.toList.all (fun c => c.isUpper || c == '.') = true := by
  have hall : ∀ op ∈ all, op.mnemonic.toList.head?.any Char.isUpper = true ∧
      op.mnemonic.toList.all (fun c => c.isUpper || c == '.') = true := by decide +kernel
  exact hall op op.mem_all

/-- A mnemonic is one word. -/
theorem isWord_mnemonic (op : Op) : IsWord op.mnemonic.toList := by
  obtain ⟨hhead, hall⟩ := op.mnemonic_spelled
  constructor
  · intro hnil
    rw [hnil] at hhead
    cases hhead
  · exact List.all_eq_true.mpr fun c hc =>
      isSolid_of_class (p := fun c => c.isUpper || c == '.') rfl rfl (List.all_eq_true.mp hall c hc)

/-- An instruction is found by its mnemonic. -/
theorem ofMnemonic?_mnemonic (op : Op) : ofMnemonic? op.mnemonic = some op := by
  have hall : ∀ op ∈ all, ofMnemonic? op.mnemonic = some op := by decide +kernel
  exact hall op op.mem_all

/-- No two instructions share a mnemonic. -/
theorem mnemonic_injective {a b : Op} (h : a.mnemonic = b.mnemonic) : a = b := by
  have ha := ofMnemonic?_mnemonic a
  rw [h, ofMnemonic?_mnemonic b] at ha
  exact (Option.some.inj ha).symm

/-- Instructions have the same mnemonic if and only if they have the same opcode. -/
theorem toList_mnemonic_eq_iff {a b : Op} :
    a.mnemonic.toList = b.mnemonic.toList ↔ a.code = b.code := by
  rw [String.toList_inj]
  constructor
  · intro h
    rw [mnemonic_injective h]
  · intro h
    rw [code_injective h]

/-- A word that does not begin with a capital letter is no mnemonic. -/
theorem ne_mnemonic {w : List Char} (h : w.head?.any Char.isUpper = false) (op : Op) :
    op.mnemonic.toList ≠ w := by
  rintro rfl
  rw [op.mnemonic_spelled.1] at h
  cases h

/-- The text of a number is no mnemonic. -/
theorem ne_mnemonic_of_isFigure {w : List Char} (h : IsFigure w) (op : Op) :
    op.mnemonic.toList ≠ w := by
  obtain ⟨c, rest, rfl⟩ := List.exists_cons_of_ne_nil h.nonempty
  have hstarts : startsFigure c = true := h.starts
  exact op.ne_mnemonic <| by simpa using (Bool.and_eq_true_iff.mp hstarts).1

/-- **The text of an opcode is a mnemonic** if and only if it is that of its instruction. -/
theorem opcodeText_eq_iff {code : UInt16} {op : Op} :
    opcodeText code = op.mnemonic ↔ op.code = code := by
  unfold opcodeText
  cases hcode : ofCode? code with
  | some op' =>
    rw [← code_of_ofCode? hcode, ← String.toList_inj, toList_mnemonic_eq_iff, eq_comm]
  | none =>
    constructor
    · intro h
      have hspelled := op.mnemonic_spelled.2
      rw [← h, String.toList_append] at hspelled
      simp at hspelled
    · rintro rfl
      rw [ofCode?_code] at hcode
      cases hcode

end Op

/-- The text of an opcode is one word, and begins with a capital letter. -/
theorem isWord_opcodeText (code : UInt16) : IsWord (opcodeText code).toList ∧
    (opcodeText code).toList.head?.any Char.isUpper = true := by
  unfold opcodeText
  split
  · next op _ => exact ⟨op.isWord_mnemonic, op.mnemonic_spelled.1⟩
  · rw [String.toList_append]
    exact ⟨.append ⟨List.cons_ne_nil _ _, rfl⟩ (solid_column 2 code.toNat), rfl⟩

/-! ### Lines -/

/-- The texts of an instruction's operands. -/
def Decoded.args (op : Op) (d : Decoded) : List (List Char) :=
  (List.zipWith (operandText op) op.slots d.operands).map String.toList

/-- The text of every operand is one word. -/
theorem Decoded.isFigure_args (op : Op) (d : Decoded) : ∀ w ∈ d.args op, IsFigure w := by
  intro w hw
  rw [args, ← List.map_uncurry_zip_eq_zipWith, List.map_map] at hw
  obtain ⟨⟨slot, v⟩, -, rfl⟩ := List.mem_map.mp hw
  exact isFigure_operandText op slot v

/-- Operands can be told from their texts. -/
theorem Decoded.operands_inj {op : Op} : {slots : List Kind} → {as bs : List Cell} →
    as.length = slots.length → bs.length = slots.length →
    (List.zipWith (operandText op) slots as).map String.toList =
      (List.zipWith (operandText op) slots bs).map String.toList → as = bs
  | [], [], [], _, _, _ => rfl
  | _ :: slots, a :: as, b :: bs, ha, hb, h => by
    obtain ⟨hfirst, hrest⟩ := List.cons.inj h
    rw [operandText_inj (String.toList_inj.mp hfirst),
      operands_inj (Nat.succ.inj ha) (Nat.succ.inj hb) hrest]

/-- The words that show where a label operand points. -/
def Decoded.targetWords (base : Addr) (d : Decoded) : List (List Char) :=
  match d.target? with
  | some target => ["(->".toList, (Addr.text (base + target)).toList ++ [')']]
  | none => []

/-- The words of a reading's line behind the address. -/
def Reading.detail (base : Addr) : Reading → List (List Char)
  | .decoded d =>
    match d.op? with
    | none => [(opcodeText d.code).toList, [';'], '0' :: 'x' :: (hexUpper d.code.toNat).toList]
    | some op => op.mnemonic.toList :: (commaWords (d.args op) ++ d.targetWords base)
  | .truncated offset op =>
    [[';'], "truncated".toList, "instruction:".toList, op.mnemonic.toList, "at".toList,
      "offset".toList, (toString offset).toList]

namespace Reading

/-- The address in front of a reading's line. -/
def address (base : Addr) (r : Reading) : List Char :=
  (Addr.text (base + Int64.ofNat r.offset)).toList

/-- The address is one word. -/
theorem isWord_address (base : Addr) (r : Reading) : IsWord (r.address base) :=
  (Addr.isFigure_text _).toIsWord

/-- The words of a line with a name in its second column. -/
theorem wordsOf_columns (base : Addr) (r : Reading) {name : String} (hname : IsWord name.toList)
    (rest : List Char) : wordsOf (r.address base ++ ' ' :: ' ' ::
      (name.toList ++ List.replicate (9 - name.length) ' ' ++ ' ' :: rest)) =
        r.address base :: name.toList :: wordsOf rest := by
  rw [wordsOf_cons (isWord_address base r), wordsOf_blank, wordsOf_column hname]

/-- The words of a lone cell's line. -/
theorem wordsOf_lone (base : Addr) {d : Decoded} (hop : d.op? = none) :
    wordsOf (d.text base).toList =
      address base (.decoded d) :: detail base (.decoded d) := by
  have hline : (d.text base).toList = address base (.decoded d) ++ ' ' :: ' ' ::
      ((opcodeText d.code).toList ++ List.replicate (9 - (opcodeText d.code).length) ' ' ++
        ' ' :: ([';'] ++ ' ' :: ('0' :: 'x' :: (hexUpper d.code.toNat).toList))) := by
    simp [Decoded.text, hop, padRight, address, offset]
  rw [hline, wordsOf_columns base _ (isWord_opcodeText _).1, wordsOf_cons (.of_eq_true rfl),
    wordsOf_word (isWord_bits _)]
  simp only [detail, hop]

/-- The words of an instruction's line. -/
theorem wordsOf_instruction (base : Addr) {d : Decoded} {op : Op} (hop : d.op? = some op) :
    wordsOf (d.text base).toList =
      address base (.decoded d) :: detail base (.decoded d) := by
  have hargs : ∀ w ∈ d.args op, IsWord w := fun w hw => (d.isFigure_args op w hw).toIsWord
  by_cases hoperands : d.operands = []
  · -- nothing is filled up behind a mnemonic that ends its line
    have hline : (d.text base).toList =
        address base (.decoded d) ++ ' ' :: ' ' :: op.mnemonic.toList := by
      simp [Decoded.text, hop, hoperands, address, offset]
    rw [hline, wordsOf_cons (isWord_address base _), wordsOf_blank, wordsOf_word op.isWord_mnemonic]
    simp [detail, hop, Decoded.args, Decoded.targetWords, Decoded.target?, hoperands, commaWords]
  · cases htarget : d.target? with
    | none =>
      have hline : (d.text base).toList = address base (.decoded d) ++ ' ' :: ' ' ::
          (op.mnemonic.toList ++ List.replicate (9 - op.mnemonic.length) ' ' ++
            ' ' :: [',', ' '].intercalate (d.args op)) := by
        simp [Decoded.text, hop, hoperands, htarget, padRight, address, offset, Decoded.args]
      -- with a blank at its end the line has the form of one with a target
      rw [hline, wordsOf_columns base _ op.isWord_mnemonic, ← wordsOf_concat_blank,
        wordsOf_intercalate _ hargs]
      simp only [detail, hop, Decoded.targetWords, htarget]
      rfl
    | some target =>
      have hline : (d.text base).toList = address base (.decoded d) ++ ' ' :: ' ' ::
          (op.mnemonic.toList ++ List.replicate (9 - op.mnemonic.length) ' ' ++
            ' ' :: ([',', ' '].intercalate (d.args op) ++
              ' ' :: ("(->".toList ++ ' ' :: ((Addr.text (base + target)).toList ++ [')'])))) := by
        simp [Decoded.text, hop, hoperands, htarget, padRight, address, offset, Decoded.args]
      rw [hline, wordsOf_columns base _ op.isWord_mnemonic, wordsOf_intercalate _ hargs,
        wordsOf_cons (.of_eq_true rfl),
        wordsOf_word ((Addr.isFigure_text _).append rfl).toIsWord]
      simp only [detail, hop, Decoded.targetWords, htarget]

/-- The words of the line of an instruction that is cut off. -/
theorem wordsOf_truncated (base : Addr) (o : Nat) (op : Op) :
    wordsOf ((truncated o op).text base).toList =
      address base (.truncated o op) :: detail base (.truncated o op) := by
  have hmessage : (Failure.truncated op o).message =
      "truncated instruction: " ++ op.mnemonic ++ " at offset " ++ toString (o : Int) := rfl
  have hline : ((truncated o op).text base).toList = address base (.truncated o op) ++ ' ' :: ' ' ::
      ([';'] ++ ' ' :: ("truncated".toList ++ ' ' :: ("instruction:".toList ++ ' ' ::
        (op.mnemonic.toList ++ ' ' :: ("at".toList ++ ' ' :: ("offset".toList ++ ' ' ::
          (toString (o : Int)).toList)))))) := by
    simp [Reading.text, hmessage, address, offset]
  rw [hline, wordsOf_cons (isWord_address base _), wordsOf_blank,
    wordsOf_cons (.of_eq_true rfl), wordsOf_cons (.of_eq_true rfl),
    wordsOf_cons (.of_eq_true rfl), wordsOf_cons op.isWord_mnemonic,
    wordsOf_cons (.of_eq_true rfl), wordsOf_cons (.of_eq_true rfl),
    wordsOf_word (isFigure_toString o).toIsWord]
  rfl

/-- **The words of a line.** -/
theorem wordsOf_text (base : Addr) (r : Reading) :
    wordsOf (r.text base).toList = r.address base :: r.detail base := by
  match r with
  | .decoded d =>
    cases hop : d.op? with
    | none => exact wordsOf_lone base hop
    | some op => exact wordsOf_instruction base hop
  | .truncated o op => exact wordsOf_truncated base o op

/-- What stands behind a mnemonic looks like no other column of a listing. -/
theorem isFigure_of_mem {base : Addr} {d : Decoded} {op : Op} {w : List Char}
    (hw : w ∈ commaWords (d.args op) ++ d.targetWords base) : IsFigure w := by
  rcases List.mem_append.mp hw with hargs | htarget
  · obtain ⟨v, hv, rfl | rfl⟩ := exists_of_mem_commaWords hargs
    · exact d.isFigure_args op _ hv
    · exact (d.isFigure_args op v hv).append rfl
  · unfold Decoded.targetWords at htarget
    split at htarget
    · next target _ =>
      rcases List.mem_cons.mp htarget with rfl | hlast
      · exact .cons (v := ['-', '>']) rfl rfl
      · rw [List.mem_singleton.mp hlast]
        exact (Addr.isFigure_text _).append rfl
    · cases htarget

/-- Every word of a line is one. -/
theorem isWord_of_mem (base : Addr) (r : Reading) :
    ∀ w ∈ r.address base :: r.detail base, IsWord w := by
  refine List.forall_mem_cons.mpr ⟨isWord_address base r, ?_⟩
  match r with
  | .decoded d =>
    cases hop : d.op? with
    | none =>
      simp only [detail, hop]
      exact List.forall_mem_cons.mpr ⟨(isWord_opcodeText d.code).1, List.forall_mem_cons.mpr
        ⟨.of_eq_true rfl, List.forall_mem_singleton.mpr (isWord_bits d.code.toNat)⟩⟩
    | some op =>
      simp only [detail, hop]
      exact List.forall_mem_cons.mpr ⟨op.isWord_mnemonic, fun w hw => (isFigure_of_mem hw).toIsWord⟩
  | .truncated o op =>
    have hnumber : IsWord (toString o).toList := (isFigure_toString o).toIsWord
    simp only [detail, List.forall_mem_cons]
    exact ⟨.of_eq_true rfl, .of_eq_true rfl, .of_eq_true rfl, op.isWord_mnemonic, .of_eq_true rfl,
      .of_eq_true rfl, hnumber, fun _ h => nomatch h⟩

end Reading

/-- **A listing has one line for each reading.** -/
theorem linesOf_listing (cells : List Cell) (base : Addr) :
    linesOf (listing cells base).toList =
      (readAll 0 cells).map fun r => (r.text base).toList := by
  unfold listing listingLines
  rw [String.toList_intercalate, List.map_map]
  refine linesOf_intercalate ?_
  intro line hline
  obtain ⟨r, -, rfl⟩ := List.mem_map.mp hline
  have hwords := r.wordsOf_text base
  constructor
  · intro hnil
    rw [Function.comp_apply] at hnil
    rw [hnil] at hwords
    cases hwords
  · exact not_mem_of_words (hwords ▸ r.isWord_of_mem base)

/-! ### What a line tells -/

namespace Reading

variable {base : Addr}

/-- A lone cell's line looks like no instruction's. -/
theorem detail_lone_ne {d e : Decoded} {op : Op} (hd : d.op? = none) (he : e.op? = some op) :
    detail base (.decoded d) ≠ detail base (.decoded e) := by
  intro h
  simp only [detail, hd, he] at h
  have hmem : [';'] ∈ commaWords (e.args op) ++ e.targetWords base :=
    (List.cons.inj h).2 ▸ List.mem_cons_self ..
  cases (isFigure_of_mem hmem).starts

/-- A line that shows what is cut off looks like no other line. -/
theorem detail_truncated_ne (d : Decoded) (o : Nat) (op : Op) :
    detail base (.decoded d) ≠ detail base (.truncated o op) := by
  intro h
  have hhead : ∃ w ∈ (detail base (.decoded d)).head?, w.head?.any Char.isUpper = true := by
    cases hop : d.op? with
    | none =>
      simp only [detail, hop]
      exact ⟨_, rfl, (isWord_opcodeText d.code).2⟩
    | some op' =>
      simp only [detail, hop]
      exact ⟨_, rfl, op'.mnemonic_spelled.1⟩
  obtain ⟨w, hw, hupper⟩ := hhead
  rw [h] at hw
  cases hw
  cases hupper

/-- **A line tells its reading**, once its offset is known. -/
theorem text_inj {r r' : Reading} {v v' : Cell} (h : r.IsOf v) (h' : r'.IsOf v')
    (hoffset : r.offset = r'.offset) (htext : r.text base = r'.text base) : r = r' := by
  have hdetail : r.detail base = r'.detail base := by
    have hwords := r.wordsOf_text base
    rw [htext, r'.wordsOf_text base] at hwords
    exact (List.cons.inj hwords).2.symm
  cases h with
  | lone hlone =>
    cases h' with
    | lone hlone' =>
      simp only [detail, List.cons.injEq, true_and, and_true] at hdetail
      have hcode := hexUpper_inj (String.toList_inj.mp hdetail.2)
      rw [UInt16.toNat_inj.mp hcode]
      cases hoffset
      rfl
    | instruction hv' hlength' => exact absurd hdetail (detail_lone_ne rfl rfl)
    | cut hv' => exact absurd hdetail (detail_truncated_ne _ _ _)
  | @instruction o op operands hv hlength =>
    cases h' with
    | lone hlone' => exact absurd hdetail.symm (detail_lone_ne rfl rfl)
    | @instruction o' op' operands' hv' hlength' =>
      simp only [detail, List.cons.injEq] at hdetail
      obtain ⟨hmnemonic, hrest⟩ := hdetail
      obtain rfl := Op.mnemonic_injective (String.toList_inj.mp hmnemonic)
      -- one instruction has one number of operands, so their words end at the same place
      have hargs := (List.append_inj hrest (by simp [Decoded.args, hlength, hlength'])).1
      have hoperands := Decoded.operands_inj hlength hlength'
        (commaWords_inj (by simp [hlength, hlength']) hargs)
      cases hoffset
      rw [hoperands]
    | cut hv' => exact absurd hdetail (detail_truncated_ne _ _ _)
  | cut hv =>
    cases h' with
    | lone hlone' => exact absurd hdetail.symm (detail_truncated_ne _ _ _)
    | instruction hv' hlength' => exact absurd hdetail.symm (detail_truncated_ne _ _ _)
    | cut hv' =>
      simp only [detail, List.cons.injEq, true_and] at hdetail
      obtain rfl := Op.mnemonic_injective (String.toList_inj.mp hdetail.1)
      cases hoffset
      rfl

end Reading

end CellMachine
