import CellMachine.Instruction.Listing
import CellMachine.Proofs.Operand.Resolve
import Mathlib.Data.Int.ModEq

/-!
# What one reading finds

A reading looks at one cell and, if it is an opcode, at the cells behind it.

* `Op.ofCell?_eq_some`, `Op.ofCell?_eq_none`, `Op.ofCell?_iff` — which cells are opcodes: a whole
  cell, not its low bits alone.
* `toNat_opcodeOf` — the low bits of a cell as a number.
* `readCells_cases` — what one reading can find.
* `readCells_lone`, `readCells_instruction`, `readCells_short` — what it finds, by the cells.
* `Reader.next_decoded`, `Reader.next_eq` — a reader looks at the cells from its position on.
-/

namespace CellMachine

/-! ### Opcode cells -/

/-- A cell with an opcode in it has sixteen bits, and they are the opcode. -/
theorem Op.ofCell?_eq_some {cell : Cell} {op : Op} (h : ofCell? cell = some op) :
    ¬(cell < 0 ∨ 0xFFFF < cell) ∧ ofCode? (opcodeOf cell) = some op := by
  unfold ofCell? at h
  split at h
  · next hrange =>
    refine ⟨?_, h⟩
    rintro (hlow | hhigh)
    · exact Int64.not_lt.mpr hrange.1 hlow
    · exact Int64.not_lt.mpr hrange.2 hhigh
  · cases h

/-- A cell without an opcode in it has more than sixteen bits, or they are no opcode. -/
theorem Op.ofCell?_eq_none {cell : Cell} (h : ofCell? cell = none) :
    (cell < 0 ∨ 0xFFFF < cell) ∨ ofCode? (opcodeOf cell) = none := by
  unfold ofCell? at h
  split at h
  · exact .inr h
  · next hrange =>
    rw [not_and_or, Int64.not_le, Int64.not_le] at hrange
    exact .inl hrange

/-- The instruction that was found for an opcode has it. -/
theorem Op.code_of_ofCode? {code : UInt16} {op : Op} (h : ofCode? code = some op) :
    op.code = code := by
  have hfound := List.find?_some h
  exact beq_iff_eq.mp hfound

/-- No instruction has more than two operands. -/
theorem Op.length_slots_le (op : Op) : op.slots.length ≤ 2 := by
  cases op <;> decide

/-- The low bits of a cell as a number. -/
theorem toNat_opcodeOf (v : Cell) : ((opcodeOf v).toNat : Int) = v.toInt % 2 ^ 16 := by
  have hlow : (opcodeOf v).toNat = v.toUInt64.toNat % 2 ^ 16 := by simp [opcodeOf]
  have hword : v.toInt = (v.toUInt64.toNat : Int).bmod (2 ^ 64) := by
    rw [← Int64.toInt_toBitVec, BitVec.toInt_eq_toNat_bmod]
    rfl
  have hcong : v.toInt % (2 ^ 64 : Nat) = (v.toUInt64.toNat : Int) % (2 ^ 64 : Nat) := by
    rw [hword, Int.bmod_emod]
  omega

/-- The cell of an opcode is the opcode as a number. -/
theorem Op.toInt_cell (op : Op) : op.cell.toInt = op.code.toNat := by
  cases op <;> rfl

/-- A cell is read as an instruction if and only if it is the whole cell of its opcode. -/
theorem Op.ofCell?_iff {v : Cell} {op : Op} : ofCell? v = some op ↔ v = op.cell := by
  constructor
  · intro h
    obtain ⟨hrange, hcode⟩ := ofCell?_eq_some h
    rw [not_or, Int64.not_lt, Int64.not_lt, Int64.le_iff_toInt_le, Int64.le_iff_toInt_le] at hrange
    have hlow : 0 ≤ v.toInt := hrange.1
    have hhigh : v.toInt ≤ 65535 := hrange.2
    have hbits := toNat_opcodeOf v
    rw [← code_of_ofCode? hcode, ← toInt_cell] at hbits
    exact Int64.toInt_inj.mp (by omega)
  · rintro rfl
    exact ofCell?_cell op

/-- A cell is read alone if and only if it is no opcode's cell. -/
theorem Op.ofCell?_eq_none_iff {v : Cell} : ofCell? v = none ↔ ∀ op : Op, v ≠ op.cell := by
  rw [Option.eq_none_iff_forall_ne_some]
  exact forall_congr' fun op => not_congr ofCell?_iff

/-! ### Readings -/

/-- What a reading can find: a lone cell, or an instruction with its operands. -/
theorem readCells_cases {pos : Nat} {first : Cell} {rest : List Cell} {d : Decoded}
    (h : readCells pos first rest = .decoded d) :
    (Op.ofCell? first = none ∧
        d = { offset := pos, code := opcodeOf first, op? := none, operands := [] }) ∨
      ∃ op, Op.ofCell? first = some op ∧ (rest.take op.slots.length).length = op.slots.length ∧
        d = { offset := pos, code := opcodeOf first, op? := some op,
              operands := rest.take op.slots.length } := by
  unfold readCells at h
  split at h
  · next hcell =>
    cases h
    exact .inl ⟨hcell, rfl⟩
  · next op hcell =>
    dsimp only at h
    split at h
    · cases h
    · next hlength =>
      cases h
      have hle : (rest.take op.slots.length).length ≤ op.slots.length := List.length_take_le _ _
      exact .inr ⟨op, hcell, by omega, rfl⟩

/-- A reading at an offset looks at the cells from there on. -/
theorem Reader.next_decoded {cells : List Cell} {o : Nat} {d : Decoded} {r : Reader}
    (h : (seek { cells } o).next = .ok (.decoded d, r)) :
    ∃ first rest, cells.drop o = first :: rest ∧ readCells o first rest = .decoded d := by
  unfold next seek at h
  rw [if_neg (Int.not_lt.mpr (Int.natCast_nonneg o))] at h
  simp only [Int.toNat_natCast] at h
  split at h
  · cases h
  · next first rest hdrop =>
    refine ⟨first, rest, hdrop, ?_⟩
    split at h
    · next hread =>
      cases h
      exact hread
    · cases h

section Found

variable {o : Nat} {v : Cell} {op : Op} {rest : List Cell}

/-- A cell that is no opcode is read alone. -/
theorem readCells_lone (hlone : ∀ op : Op, v ≠ op.cell) : readCells o v rest =
    .decoded { offset := o, code := opcodeOf v, op? := none, operands := [] } := by
  unfold readCells
  rw [Op.ofCell?_eq_none_iff.mpr hlone]

/-- An opcode with enough cells behind it is read with its operands. -/
theorem readCells_instruction (hlength : (rest.take op.slots.length).length = op.slots.length) :
    readCells o op.cell rest = .decoded
      { offset := o, code := op.code, op? := some op, operands := rest.take op.slots.length } := by
  unfold readCells
  simp only [Op.ofCell?_cell, Op.opcodeOf_cell]
  rw [if_neg (by omega)]

/-- An opcode with too few cells behind it is cut off. -/
theorem readCells_short (hshort : rest.length < op.slots.length) :
    readCells o op.cell rest = .truncated o op := by
  unfold readCells
  simp only [Op.ofCell?_cell]
  rw [if_pos (by rw [List.length_take]; omega)]

end Found

/-- The outcome of a reading. -/
def Reading.outcome : Reading → Reader.Outcome
  | .decoded d => .decoded d
  | .truncated offset op => .truncated offset op

/-- What can be read where a cell stands: the cell alone, or the instruction whose opcode it is,
with all of its operands or cut off. -/
inductive Reading.IsOf (v : Cell) : Reading → Prop
  | lone {o : Nat} (hlone : ∀ op : Op, v ≠ op.cell) :
    IsOf v (.decoded { offset := o, code := opcodeOf v, op? := none, operands := [] })
  | instruction {o : Nat} {op : Op} {operands : List Cell} (hv : v = op.cell)
    (hlength : operands.length = op.slots.length) :
    IsOf v (.decoded { offset := o, code := op.code, op? := some op, operands })
  | cut {o : Nat} {op : Op} (hv : v = op.cell) : IsOf v (.truncated o op)

/-- Where a reading was begun. -/
def Reading.offset : Reading → Nat
  | .decoded d => d.offset
  | .truncated offset _ => offset

/-- Where a reader goes on behind a reading. -/
def Reading.stop (cells : List Cell) : Reading → Nat
  | .decoded d => d.offset + d.width
  | .truncated _ _ => cells.length

/-- A reading has the offset at which it was begun. -/
theorem offset_of_readCells {o : Nat} {v : Cell} {rest : List Cell} {d : Decoded}
    (h : readCells o v rest = .decoded d) : d.offset = o := by
  rcases readCells_cases h with ⟨-, rfl⟩ | ⟨op, -, -, rfl⟩ <;> rfl

/-- A reader finds what a reading of the cells from its position on finds. -/
theorem Reader.next_eq {cells rest : List Cell} {o : Nat} {v : Cell}
    (hdrop : cells.drop o = v :: rest) : next ⟨cells, o⟩ =
      .ok ((readCells o v rest).outcome, ⟨cells, (readCells o v rest).stop cells⟩) := by
  unfold next
  rw [if_neg (Int.not_lt.mpr (Int.natCast_nonneg o))]
  simp only [Int.toNat_natCast, hdrop]
  cases hread : readCells o v rest with
  | decoded d =>
    simp only [Reading.outcome, Reading.stop, offset_of_readCells hread, Int.natCast_add]
  | truncated offset op => rfl

end CellMachine
