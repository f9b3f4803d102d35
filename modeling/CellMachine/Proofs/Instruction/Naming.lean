import CellMachine.Proofs.Instruction.Tiling

/-!
# What a listing tells about the cells

An instruction's line tells all of its cells. The line of a lone cell is made from the low sixteen
bits of the cell alone: it names an instruction if they are an opcode, though the cell is none, and
the bits above them are shown nowhere. A listing is right about a lone cell, therefore, if and only
if the cell has no bits above the sixteenth.

* `Reading.IsOf.names_iff`, `Reading.IsOf.shows_iff` — what a line names, and the number it shows.
* `Reading.IsOf.faithful_iff` — which lines are right.
* `listing_eq_iff` — **two listings are equal if and only if the readings are**.
* `readAll_eq_iff` — which streams have the same readings.
* `listing_tells` — **what a listing tells**: the two together.
-/

namespace CellMachine

open Text

/-! ### Names and numbers in a line -/

/-- A line names an instruction. -/
def Names (line : String) (op : Op) : Prop := op.mnemonic.toList ∈ wordsOf line.toList

/-- A line shows a number behind `0x`. -/
def ShowsBits (line : String) (n : Nat) : Prop :=
  ∃ digits, '0' :: 'x' :: digits ∈ wordsOf line.toList ∧ hexNumber? digits = some n

/-- A line is right about a cell: it names no instruction but that of the cell, and if there is none
it shows the whole cell. -/
structure Faithful (line : String) (v : Cell) : Prop where
  names : ∀ op, Names line op → v = op.cell
  shows : (∀ op : Op, v ≠ op.cell) → ∃ n, ShowsBits line n ∧ Int64.ofNat n = v

namespace Reading.IsOf

variable {r : Reading} {v : Cell}

/-- **A line names the instruction whose opcode the low bits of the cell are.** -/
theorem names_iff (h : r.IsOf v) (base : Addr) (op : Op) :
    Names (r.text base) op ↔ op.code = opcodeOf v := by
  have haddress : op.mnemonic.toList ≠ r.address base :=
    op.ne_mnemonic_of_isFigure (Addr.isFigure_text _)
  unfold Names
  rw [r.wordsOf_text, List.mem_cons, or_iff_right haddress]
  cases h with
  | lone hlone =>
    have hsemicolon : op.mnemonic.toList ≠ [';'] := op.ne_mnemonic rfl
    have hbits : op.mnemonic.toList ≠ '0' :: 'x' :: (hexUpper (opcodeOf v).toNat).toList :=
      op.ne_mnemonic rfl
    simp only [detail, List.mem_cons, List.not_mem_nil, hsemicolon, hbits, or_false]
    rw [String.toList_inj, eq_comm, Op.opcodeText_eq_iff]
  | @instruction o op' operands hv hlength =>
    rw [hv, Op.opcodeOf_cell, ← Op.toList_mnemonic_eq_iff, detail, List.mem_cons,
      or_iff_left fun hmem => ?_]
    exact op.ne_mnemonic_of_isFigure (isFigure_of_mem hmem) rfl
  | @cut o op' hv =>
    have hother {w : List Char} (hw : w.head?.any Char.isUpper = false) :
        (op.mnemonic.toList = w) = False := eq_false (op.ne_mnemonic hw)
    have hnumber : (op.mnemonic.toList = (toString o).toList) = False :=
      eq_false (op.ne_mnemonic_of_isFigure (isFigure_toString o))
    simp only [detail, List.mem_cons, List.not_mem_nil, or_false, false_or,
      hother (w := [';']) rfl, hother (w := "truncated".toList) rfl,
      hother (w := "instruction:".toList) rfl, hother (w := "at".toList) rfl,
      hother (w := "offset".toList) rfl, hnumber]
    rw [hv, Op.opcodeOf_cell, Op.toList_mnemonic_eq_iff]

/-- The words of a lone cell's line behind the address. -/
theorem detail_of_lone (h : r.IsOf v) (hlone : ∀ op : Op, v ≠ op.cell) (base : Addr) :
    r.detail base = [(opcodeText (opcodeOf v)).toList, [';'],
      '0' :: 'x' :: (hexUpper (opcodeOf v).toNat).toList] := by
  cases h with
  | lone _ => rfl
  | instruction hv _ | cut hv => exact absurd hv (hlone _)

/-- **The number in a lone cell's line** is that of the low bits. -/
theorem shows_iff (h : r.IsOf v) (hlone : ∀ op : Op, v ≠ op.cell) (base : Addr) (n : Nat) :
    ShowsBits (r.text base) n ↔ (n : Int) = v.toInt % 2 ^ 16 := by
  have haddress : ∀ digits, '0' :: 'x' :: digits ≠ r.address base := by
    intro digits heq
    rw [address, Addr.toList_text] at heq
    cases heq
  have hname : ∀ digits, '0' :: 'x' :: digits ≠ (opcodeText (opcodeOf v)).toList := by
    intro digits heq
    have hupper := (isWord_opcodeText (opcodeOf v)).2
    rw [← heq] at hupper
    cases hupper
  have hbits : ∀ digits, '0' :: 'x' :: digits ∈ wordsOf (r.text base).toList ↔
      digits = (hexUpper (opcodeOf v).toNat).toList := by
    intro digits
    rw [r.wordsOf_text, h.detail_of_lone hlone]
    simp [haddress, hname]
  unfold ShowsBits
  simp only [hbits, exists_eq_left, hexNumber?_hexUpper, ← toNat_opcodeOf, Option.some.injEq,
    Int.natCast_inj]
  exact eq_comm

/-- **A line is right** about the cell of an instruction, and about a lone cell if and only if that
has no bits above the sixteenth. -/
theorem faithful_iff (h : r.IsOf v) (base : Addr) : Faithful (r.text base) v ↔
    (∃ op : Op, v = op.cell) ∨ 0 ≤ v.toInt ∧ v.toInt < 2 ^ 16 := by
  have hlow := toNat_opcodeOf v
  constructor
  · intro hfaithful
    by_cases hop : ∃ op : Op, v = op.cell
    · exact .inl hop
    · obtain ⟨n, hn, hv⟩ := hfaithful.shows (not_exists.mp hop)
      have hshown := (h.shows_iff (not_exists.mp hop) base n).mp hn
      have hvalue : v.toInt = n := by
        rw [← hv, Int64.toInt_ofNat_of_lt (by omega)]
      exact .inr (by omega)
  · rintro (⟨op, rfl⟩ | hrange)
    · refine ⟨fun op' hnames => ?_, fun hlone => absurd rfl (hlone op)⟩
      rw [h.names_iff, Op.opcodeOf_cell] at hnames
      rw [Op.code_injective hnames]
    · refine ⟨fun op hnames => ?_, fun hlone => ⟨(opcodeOf v).toNat, ?_, ?_⟩⟩
      · rw [h.names_iff] at hnames
        have hcell := op.toInt_cell
        rw [hnames] at hcell
        exact Int64.toInt_inj.mp (by omega)
      · exact (h.shows_iff hlone base _).mpr hlow
      · refine Int64.toInt_inj.mp ?_
        rw [Int64.toInt_ofNat_of_lt (by omega)]
        omega

end Reading.IsOf

/-! ### Equal listings -/

/-- Readings with the same lines are the same. -/
theorem Tiles.eq_of_lines {cells cells' : List Cell} {base : Addr} {rs rs' : List Reading} {o : Nat}
    (h : Tiles cells o rs) (h' : Tiles cells' o rs')
    (hlines : (rs.map fun r => (r.text base).toList) = rs'.map fun r => (r.text base).toList) :
    rs = rs' := by
  induction rs generalizing o rs' with
  | nil => exact (List.map_eq_nil_iff.mp hlines.symm).symm
  | cons r rs ih =>
    obtain ⟨r', rs', rfl, htext, hrest⟩ := List.map_eq_cons_iff.mp hlines.symm
    obtain ⟨-, v, -, hr⟩ := h.of_mem r (List.mem_cons_self ..)
    obtain ⟨-, v', -, hr'⟩ := h'.of_mem r' (List.mem_cons_self ..)
    obtain rfl := Reading.text_inj hr hr' (h.offset_eq.trans h'.offset_eq.symm)
      (String.toList_inj.mp htext.symm)
    cases r with
    | decoded d => rw [ih h.uncons.2 h'.uncons.2 hrest.symm]
    | truncated offset op =>
      cases h
      cases h'
      rfl

/-- **Two listings are equal if and only if the readings are.** -/
theorem listing_eq_iff {cells cells' : List Cell} {base : Addr} :
    listing cells base = listing cells' base ↔ readAll 0 cells = readAll 0 cells' := by
  constructor
  · intro h
    have hlines := linesOf_listing cells base
    rw [h, linesOf_listing] at hlines
    exact (tiles_readAll cells' 0 (Nat.zero_le _)).eq_of_lines
      (tiles_readAll cells 0 (Nat.zero_le _)) hlines |>.symm
  · intro h
    unfold listing listingLines
    rw [h]

/-! ### Equal readings -/

/-- A stream that does not end in the middle of an instruction. -/
def Whole (cells : List Cell) : Prop := ∀ o op, Reading.truncated o op ∉ readAll 0 cells

/-- Among readings, a lone cell at an offset. -/
def ReadAlone (rs : List Reading) (i : Nat) : Prop :=
  ∃ d, Reading.decoded d ∈ rs ∧ d.offset = i ∧ d.op? = none

/-- Where two streams differ at most in what the readings of the first one leave out: in the high
bits of a lone cell, which is no opcode in the second one either. -/
def ListedAlike (rs : List Reading) (cells cells' : List Cell) (i : Nat) : Prop :=
  cells[i]? = cells'[i]? ∨ ReadAlone rs i ∧ ∃ v v', cells[i]? = some v ∧ cells'[i]? = some v' ∧
    v.toInt % 2 ^ 16 = v'.toInt % 2 ^ 16 ∧ ∀ op : Op, v' ≠ op.cell

/-- Cells that are the same in a range, one by one. -/
theorem getElem?_eq_of_range {cells cells' : List Cell} {o w i : Nat}
    (h : (cells.drop o).take w = (cells'.drop o).take w) (hle : o ≤ i) (hlt : i < o + w) :
    cells[i]? = cells'[i]? := by
  have hi := congrArg (·[i - o]?) h
  simp only [List.getElem?_take, List.getElem?_drop] at hi
  rwa [if_pos (by omega), if_pos (by omega), Nat.add_sub_cancel' hle] at hi

/-- Cells that are the same one by one are the same in a range. -/
theorem range_eq_of_getElem? {cells cells' : List Cell} {o w : Nat}
    (h : ∀ i, o ≤ i → i < o + w → cells[i]? = cells'[i]?) :
    (cells.drop o).take w = (cells'.drop o).take w := by
  refine List.ext_getElem? fun i => ?_
  simp only [List.getElem?_take, List.getElem?_drop]
  split
  · exact h (o + i) (by omega) (by omega)
  · rfl

section Alike

variable {cells cells' : List Cell} {rs : List Reading} {i : Nat}

/-- One more reading in front. -/
theorem ListedAlike.cons {r : Reading} (h : ListedAlike rs cells cells' i) :
    ListedAlike (r :: rs) cells cells' i :=
  h.imp_right (And.imp_left fun ⟨d, hd, hrest⟩ => ⟨d, List.mem_cons_of_mem r hd, hrest⟩)

/-- Behind the offset of the first reading the others count. -/
theorem ListedAlike.tail {r : Reading} (h : ListedAlike (r :: rs) cells cells' i)
    (hlt : r.offset < i) : ListedAlike rs cells cells' i := by
  refine h.imp_right (And.imp_left ?_)
  rintro ⟨d, hd, hoffset, hop⟩
  rcases List.mem_cons.mp hd with rfl | hd
  · exact absurd hoffset (Nat.ne_of_lt hlt)
  · exact ⟨d, hd, hoffset, hop⟩

/-- Streams with the same reading at an offset are alike in its range. -/
theorem Decoded.StandsIn.alike {v v' : Cell} {d : Decoded} (h : d.StandsIn cells v)
    (h' : d.StandsIn cells' v') (hmem : .decoded d ∈ rs) (hle : d.offset ≤ i)
    (hlt : i < d.offset + d.width) : ListedAlike rs cells cells' i := by
  -- only a lone cell can differ, for an instruction is told by its whole cell
  by_cases hcell : v = v'
  · subst hcell
    exact .inl (getElem?_eq_of_range (h.read.trans h'.read.symm) hle hlt)
  · have hop : d.op? = none := by
      refine Option.eq_none_iff_forall_ne_some.mpr fun op hop => hcell ?_
      rw [(h.known op).mp hop, (h'.known op).mp hop]
    have hoperands := h.operands
    rw [hop] at hoperands
    have hi : d.offset = i := by
      unfold Decoded.width at hlt
      simp only [Option.map_none, Option.getD_none] at hoperands
      omega
    refine .inr ⟨⟨d, hmem, hi, hop⟩, v, v', hi ▸ h.cell, hi ▸ h'.cell, ?_, fun op hv' => ?_⟩
    · rw [← h.low, h'.low]
    · rw [← h'.known, hop] at hv'
      cases hv'

/-- **Streams with the same readings are alike.** -/
theorem Tiles.alike {o : Nat} (h : Tiles cells o rs) (h' : Tiles cells' o rs)
    (hwhole : ∀ o op, Reading.truncated o op ∉ rs) :
    cells.length = cells'.length ∧ ∀ i, o ≤ i → ListedAlike rs cells cells' i := by
  induction rs generalizing o with
  | nil =>
    refine ⟨h.eq_length.symm.trans h'.eq_length, fun i hi => .inl ?_⟩
    rw [List.getElem?_eq_none (h.eq_length ▸ hi), List.getElem?_eq_none (h'.eq_length ▸ hi)]
  | cons r rs ih =>
    cases r with
    | truncated offset op => exact absurd (List.mem_cons_self ..) (hwhole offset op)
    | decoded d =>
      obtain ⟨⟨v, hd⟩, htail⟩ := h.uncons
      obtain ⟨⟨v', hd'⟩, htail'⟩ := h'.uncons
      have hoffset : d.offset = o := h.offset_eq
      obtain ⟨hlength, halike⟩ := ih htail htail' fun o op hmem =>
        hwhole o op (List.mem_cons_of_mem _ hmem)
      refine ⟨hlength, fun i hi => ?_⟩
      by_cases hlt : i < o + d.width
      · exact hd.alike hd' (List.mem_cons_self ..) (by omega) (by omega)
      · exact (halike i (by omega)).cons

/-- **Streams that are alike have the same readings.** -/
theorem Tiles.of_alike {o : Nat} (h : Tiles cells o rs)
    (hwhole : ∀ o op, Reading.truncated o op ∉ rs) (hlength : cells.length = cells'.length)
    (halike : ∀ i, o ≤ i → ListedAlike rs cells cells' i) : Tiles cells' o rs := by
  induction h with
  | done =>
    rw [hlength]
    exact .done
  | @lone o v rs hv hlone tail ih =>
    obtain ⟨v', hv', hlow, hlone'⟩ : ∃ v', cells'[o]? = some v' ∧
        v.toInt % 2 ^ 16 = v'.toInt % 2 ^ 16 ∧ ∀ op : Op, v' ≠ op.cell := by
      rcases halike o (Nat.le_refl o) with heq | ⟨-, w, v', hw, hv', hlow, hlone'⟩
      · exact ⟨v, heq ▸ hv, rfl, hlone⟩
      · obtain rfl := Option.some.inj (hv.symm.trans hw)
        exact ⟨v', hv', hlow, hlone'⟩
    have hcode : opcodeOf v = opcodeOf v' := by
      rw [← toNat_opcodeOf, ← toNat_opcodeOf] at hlow
      exact UInt16.toNat_inj.mp (Int.natCast_inj.mp hlow)
    rw [hcode]
    refine .lone hv' hlone' (ih (fun o op hmem => hwhole o op (List.mem_cons_of_mem _ hmem)) ?_)
    exact fun i hi => (halike i (by omega)).tail hi
  | @instruction o op operands rs hv hoperands hlength' tail ih =>
    -- no reading begins among the cells of an instruction but its own
    have hcells : ∀ i, o ≤ i → i < o + op.width → cells[i]? = cells'[i]? := by
      intro i hle hlt
      rcases halike i hle with heq | ⟨⟨d, hd, hoffset, hop⟩, -⟩
      · exact heq
      · rcases List.mem_cons.mp hd with hfirst | hd
        · cases hfirst
          cases hop
        · have hbehind : o + op.width ≤ d.offset := (tail.of_mem _ hd).1
          omega
    have hwidth : op.width = 1 + op.slots.length := rfl
    refine .instruction ?_ ?_ hlength'
      (ih (fun o op hmem => hwhole o op (List.mem_cons_of_mem _ hmem)) ?_)
    · rw [← hcells o (Nat.le_refl o) (by omega), hv]
    · rw [← hoperands]
      exact (range_eq_of_getElem? fun i hle hlt => hcells i (by omega) (by omega)).symm
    · exact fun i hi => (halike i (by omega)).tail (show o < i by omega)
  | @cut o op hv hshort => exact absurd (List.mem_singleton_self _) (hwhole o op)

/-- **Which streams have the same readings**, if the first one ends with a whole instruction. -/
theorem readAll_eq_iff (hwhole : Whole cells) : readAll 0 cells = readAll 0 cells' ↔
    cells.length = cells'.length ∧ ∀ i, ListedAlike (readAll 0 cells) cells cells' i := by
  have htiles := tiles_readAll cells 0 (Nat.zero_le _)
  have htiles' := tiles_readAll cells' 0 (Nat.zero_le _)
  rw [List.drop_zero] at htiles htiles'
  constructor
  · intro h
    obtain ⟨hlength, halike⟩ := htiles.alike (h ▸ htiles') hwhole
    exact ⟨hlength, fun i => halike i (Nat.zero_le i)⟩
  · rintro ⟨hlength, halike⟩
    exact (htiles.of_alike hwhole hlength fun i _ => halike i).unique htiles'

end Alike

/-- **What a listing tells about the cells.** It has one line for each reading, which begins with
the address of the first cell. The line names the instruction whose opcode the low sixteen bits of
the cell are, and the line of a lone cell shows those bits as its number. So a line is right if the
cell is an instruction's, and the line of a lone cell is right if and only if the cell has no bits
above the sixteenth. Of a stream that ends with a whole instruction the listing tells everything but
these bits. -/
theorem listing_tells (cells : List Cell) (base : Addr) :
    linesOf (listing cells base).toList =
        ((readAll 0 cells).map fun r => (r.text base).toList) ∧
      (∀ r ∈ readAll 0 cells, ∃ v, cells[r.offset]? = some v ∧
        (wordsOf (r.text base).toList).head? =
          some (Addr.text (base + Int64.ofNat r.offset)).toList ∧
        (∀ op, Names (r.text base) op ↔ (op.code.toNat : Int) = v.toInt % 2 ^ 16) ∧
        ((∀ op : Op, v ≠ op.cell) →
          ∀ n, ShowsBits (r.text base) n ↔ (n : Int) = v.toInt % 2 ^ 16) ∧
        (Faithful (r.text base) v ↔
          (∃ op : Op, v = op.cell) ∨ 0 ≤ v.toInt ∧ v.toInt < 2 ^ 16)) ∧
      (Whole cells → ∀ cells', listing cells base = listing cells' base ↔
        cells.length = cells'.length ∧ ∀ i, ListedAlike (readAll 0 cells) cells cells' i) := by
  have htiles := tiles_readAll cells 0 (Nat.zero_le _)
  refine ⟨linesOf_listing cells base, fun r hr => ?_, fun hwhole cells' => ?_⟩
  · obtain ⟨-, v, hv, hof⟩ := htiles.of_mem r hr
    refine ⟨v, hv, ?_, fun op => ?_, fun hlone => hof.shows_iff hlone base, hof.faithful_iff base⟩
    · rw [r.wordsOf_text]
      rfl
    · rw [hof.names_iff, ← toNat_opcodeOf, Int.natCast_inj, UInt16.toNat_inj]
  · rw [listing_eq_iff, readAll_eq_iff hwhole]

/-- Two cells whose low bits are the opcode of a load: each is listed as the load, and they have the
same listing. -/
theorem listing_tells_sample :
    Names (listing [0x100000030] 0) .loadP ∧ listing [0x100000030] 0 = listing [0x200000030] 0 := by
  have hlone : ∀ op : Op, (0x100000030 : Cell) ≠ op.cell := Op.ofCell?_eq_none_iff.mp (by decide)
  have hlone' : ∀ op : Op, (0x200000030 : Cell) ≠ op.cell := Op.ofCell?_eq_none_iff.mp (by decide)
  have hread : readAll 0 [0x100000030] = [.decoded ⟨0, 0x30, none, []⟩] := by
    rw [readAll]
    simp only [readCells_lone hlone]
    rw [List.drop_nil, readAll]
    rfl
  have hline : listing [0x100000030] 0 = (Reading.decoded ⟨0, 0x30, none, []⟩).text 0 := by
    rw [listing, listingLines, hread]
    rfl
  have hwhole : Whole [0x100000030] := by
    intro o op h
    rw [hread] at h
    cases List.mem_singleton.mp h
  obtain ⟨-, hreadings, hequal⟩ := listing_tells [0x100000030] 0
  obtain ⟨v, hv, -, hnames, -⟩ := hreadings _ (hread ▸ List.mem_singleton_self _)
  cases hv
  refine ⟨hline ▸ (hnames .loadP).mpr (by decide), (hequal hwhole [0x200000030]).mpr ⟨rfl, ?_⟩⟩
  rintro (_ | i)
  · exact .inr ⟨⟨⟨0, 0x30, none, []⟩, hread ▸ List.mem_singleton_self _, rfl, rfl⟩, _, _, rfl, rfl,
      by decide, hlone'⟩
  · exact .inl rfl

end CellMachine
