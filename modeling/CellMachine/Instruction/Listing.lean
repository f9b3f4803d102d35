import CellMachine.Failure

/-!
# Reading instructions back from cells

A stream of cells is read from the left. A cell that is the opcode of an instruction is taken
together with one cell for each operand slot; any other cell is taken alone. If a stream ends in
the middle of an instruction the reading stops there.

`readCells` reads once, `Reader` keeps the offset between readings, and `listing` writes a whole
stream, one line for each reading.
-/

namespace CellMachine

/-- One instruction, or one cell that is none, read from a stream. -/
structure Decoded where
  /-- The offset of the opcode cell. -/
  offset : Nat
  /-- The low sixteen bits of the opcode cell. -/
  code : UInt16
  /-- The instruction, if the opcode cell is one. -/
  op? : Option Op
  /-- The operand cells. -/
  operands : List Cell
  deriving DecidableEq, Repr

namespace Decoded

/-- The number of cells that were read. -/
def width (d : Decoded) : Nat := 1 + d.operands.length

/-- The offset in the stream that a label operand points at. The operand is the cell after the
opcode, and a relative one counts from its own cell. -/
def target? (d : Decoded) : Option Int64 :=
  match d.op?, d.operands with
  | some op, v :: _ =>
    match op.patch with
    | .none => none
    | .relative => some (Int64.ofNat (d.offset + 1) + v)
    | _ => some v
  | _, _ => none

end Decoded

/-- What stands at an offset of a stream. -/
inductive Reading
  /-- An instruction or a lone cell. -/
  | decoded (d : Decoded)
  /-- An instruction whose operands run past the end. -/
  | truncated (offset : Nat) (op : Op)
  deriving DecidableEq, Repr

/-- Reads the instruction at the offset `pos`, whose opcode cell is `first` and after which the
cells `rest` follow. -/
def readCells (pos : Nat) (first : Cell) (rest : List Cell) : Reading :=
  match Op.ofCell? first with
  | none => .decoded { offset := pos, code := opcodeOf first, op? := none, operands := [] }
  | some op =>
    let operands := rest.take op.slots.length
    if operands.length < op.slots.length then .truncated pos op
    else .decoded { offset := pos, code := opcodeOf first, op? := some op, operands }

/-! ### A reader with a position -/

/-- A stream of cells and the offset of the next reading. -/
structure Reader where
  cells : List Cell
  pos : Int := 0
  deriving Repr

/-- The outcome of one reading. -/
inductive Reader.Outcome
  | decoded (d : Decoded)
  | truncated (offset : Nat) (op : Op)
  /-- Nothing is left at the position. -/
  | exhausted (pos : Int)
  deriving Repr

namespace Reader

/-- Whether cells are left to read. -/
def hasMore (r : Reader) : Bool := r.pos < r.cells.length

/-- Moves the position, to any number. -/
def seek (r : Reader) (pos : Int) : Reader := { r with pos }

/-- Reads once and moves the position past what was read. At the end of the cells the position
stays; before their start there is nothing to read. -/
def next (r : Reader) : Except Failure (Outcome × Reader) :=
  if r.pos < 0 then .error .crash
  else match r.cells.drop r.pos.toNat with
    | [] => .ok (.exhausted r.pos, r)
    | first :: rest =>
      match readCells r.pos.toNat first rest with
      | .decoded d => .ok (.decoded d, { r with pos := r.pos + d.width })
      | .truncated offset op => .ok (.truncated offset op, { r with pos := r.cells.length })

/-- The failure that an outcome amounts to, if it is one. -/
def Outcome.failure? : Outcome → Option Failure
  | .decoded _ => none
  | .truncated offset op => some (.truncated op offset)
  | .exhausted pos => some (.exhausted pos)

end Reader

/-! ### Listings -/

/-- The readings of a whole stream whose first cell has the offset `pos`. -/
def readAll (pos : Nat) : List Cell → List Reading
  | [] => []
  | first :: rest =>
    match readCells pos first rest with
    | .truncated offset op => [.truncated offset op]
    | .decoded d => .decoded d :: readAll (pos + d.width) (rest.drop d.operands.length)
termination_by cells => cells.length
decreasing_by simp only [List.length_drop, List.length_cons]; omega

namespace Decoded

/-- One operand cell as a listing shows it. -/
def operandText (op : Op) (slot : Kind) (v : Cell) : String :=
  match slot with
  | .address =>
    if op.storage = .frame then "[FP" ++ Text.signedDecimal v.toInt ++ "]" else Addr.text v
  | _ => toString v.toInt

/-- The line of a reading in a listing, for a stream whose first cell has the address `base`. -/
def text (d : Decoded) (base : Addr) : String :=
  let pos := Addr.text (base + Int64.ofNat d.offset)
  match d.op? with
  | none =>
    pos ++ "  " ++ Text.padRight 9 (opcodeText d.code) ++ " ; 0x" ++ Text.hexUpper d.code.toNat
  | some op =>
    if d.operands.isEmpty then pos ++ "  " ++ op.mnemonic
    else
      let args := List.zipWith (operandText op) op.slots d.operands
      let line := pos ++ "  " ++ Text.padRight 9 op.mnemonic ++ " " ++ ", ".intercalate args
      match d.target? with
      | some target => line ++ " (-> " ++ Addr.text (base + target) ++ ")"
      | none => line

end Decoded

/-- The line of a reading in a listing. -/
def Reading.text (base : Addr) : Reading → String
  | .decoded d => d.text base
  | .truncated offset op =>
    Addr.text (base + Int64.ofNat offset) ++ "  ; " ++ (Failure.truncated op offset).message

/-- The lines of a stream whose first cell has the address `base`. -/
def listingLines (cells : List Cell) (base : Addr) : List String :=
  (readAll 0 cells).map (Reading.text base)

/-- A stream written out, one line for each reading. -/
def listing (cells : List Cell) (base : Addr) : String :=
  "\n".intercalate (listingLines cells base)

end CellMachine
