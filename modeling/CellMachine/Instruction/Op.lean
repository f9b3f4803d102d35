import CellMachine.Instruction.Kind
import CellMachine.Text.Digits
import CellMachine.Text.Name
import CellMachine.Word

/-!
# The instruction table

Every instruction is one constructor of `Op`; `Op.info` gives its entry in the table: mnemonic,
opcode, the kinds of its operand slots, the registers it uses, the storage class of its locations
and the rule for its label. Opcodes and mnemonics are looked up in the same table, so they cannot
drift apart; `ofCode?_code` and `code_injective` say that no two instructions share an opcode.
-/

namespace CellMachine

/-- The instructions of the machine. `P` and `S` are its two registers. -/
inductive Op
  /-- Does nothing. -/
  | nop
  /-- Ends the run. -/
  | halt
  /-- Faults. It fills regions whose patch was given up. -/
  | trap
  /-- Marks the entry of a routine. -/
  | proc
  /-- Leaves the frame and returns to the caller. -/
  | ret
  /-- Reserves cells on the stack. -/
  | stack
  /-- Calls a position of the same stream. -/
  | call
  /-- Calls the routine at an address. -/
  | calla
  /-- Sets `P` to a literal. -/
  | constP
  /-- Sets `S` to a literal. -/
  | constS
  /-- Sets `P` to zero. -/
  | zeroP
  /-- Sets `S` to zero. -/
  | zeroS
  /-- Pushes a literal. -/
  | pushC
  /-- Sets `P` to the cell at an address. -/
  | loadP
  /-- Sets `S` to the cell at an address. -/
  | loadS
  /-- Writes `P` to an address. -/
  | storP
  /-- Writes `S` to an address. -/
  | storS
  /-- Adds one to the cell at an address. -/
  | incG
  /-- Takes one from the cell at an address. -/
  | decG
  /-- Writes a literal to an address. -/
  | setm
  /-- Sets `P` to the cell at a frame offset. -/
  | loadLP
  /-- Sets `S` to the cell at a frame offset. -/
  | loadLS
  /-- Writes `P` to a frame offset. -/
  | storLP
  /-- Writes `S` to a frame offset. -/
  | storLS
  /-- Sets `P` to the address of a frame offset. -/
  | addrLP
  /-- Adds one to the cell at a frame offset. -/
  | incL
  /-- Takes one from the cell at a frame offset. -/
  | decL
  /-- Sets `P` to the cell that `P` points at. -/
  | liP
  /-- Writes `P` to the cell that `S` points at. -/
  | siP
  /-- Sets `P` to `S`. -/
  | moveP
  /-- Sets `S` to `P`. -/
  | moveS
  /-- Swaps `P` and `S`. -/
  | xchg
  /-- Pushes `P`. -/
  | pushP
  /-- Pushes `S`. -/
  | pushS
  /-- Pops into `P`. -/
  | popP
  /-- Pops into `S`. -/
  | popS
  /-- Adds one to `P`. -/
  | incP
  /-- Takes one from `P`. -/
  | decP
  /-- Sets `P` to `P + S`. -/
  | add
  /-- Sets `P` to `P - S`. -/
  | sub
  /-- Sets `P` to `P * S`. -/
  | mul
  /-- Sets `P` to the quotient of `P` and `S`, cut toward zero. -/
  | div
  /-- Sets `P` to the remainder of that quotient. -/
  | mod
  /-- Sets `P` to the bitwise and of `P` and `S`. -/
  | and
  /-- Sets `P` to the bitwise or of `P` and `S`. -/
  | or
  /-- Sets `P` to the bitwise difference of `P` and `S`. -/
  | xor
  /-- Shifts `P` left by `S` modulo 64. -/
  | shl
  /-- Shifts `P` right by `S` modulo 64, keeping the sign. -/
  | shr
  /-- Sets `P` to `-P`. -/
  | neg
  /-- Flips every bit of `P`. -/
  | not
  /-- Sets `P` to the truth of `P = S`. -/
  | eq
  /-- Sets `P` to the truth of `P ≠ S`. -/
  | neq
  /-- Sets `P` to the truth of `P < S`. -/
  | less
  /-- Sets `P` to the truth of `P ≤ S`. -/
  | leq
  /-- Sets `P` to the truth of `P > S`. -/
  | grtr
  /-- Sets `P` to the truth of `P ≥ S`. -/
  | geq
  /-- Jumps to a label, counted from the start of the routine. -/
  | jump
  /-- Jumps to a label, counted from the operand cell. -/
  | jrel
  /-- Jumps if `P` is zero. -/
  | jzer
  /-- Jumps if `P` is not zero. -/
  | jnz
  /-- Jumps if `P = S`. -/
  | jeq
  /-- Jumps if `P ≠ S`. -/
  | jneq
  deriving DecidableEq, Repr, Inhabited

/-- An entry of the instruction table. -/
structure Instruction where
  /-- The name in source text and listings. -/
  mnemonic : String
  /-- The value of the first cell. -/
  code : UInt16
  /-- The kinds of the operand slots, each one cell. -/
  slots : List Kind := []
  /-- The registers used besides the slots. -/
  implicit : Implicit := .none
  /-- The storage class of the location slots. -/
  storage : StorageClass := .global
  /-- The rule for the label slot. -/
  patch : PatchRule := .none
  deriving Repr

namespace Op

/-- The table entry of an instruction. -/
def info : Op → Instruction
  | .nop => { mnemonic := "NOP", code := 0x00 }
  | .halt => { mnemonic := "HALT", code := 0x01, implicit := .p }
  | .trap => { mnemonic := "TRAP", code := 0x02 }
  | .proc => { mnemonic := "PROC", code := 0x10 }
  | .ret => { mnemonic := "RET", code := 0x11, implicit := .p }
  | .stack => { mnemonic := "STACK", code := 0x12, slots := [.immediate] }
  | .call => { mnemonic := "CALL", code := 0x13, slots := [.label], patch := .absolute }
  | .calla => { mnemonic := "CALLA", code := 0x14, slots := [.address] }
  | .constP => { mnemonic := "CONST.P", code := 0x20, slots := [.immediate], implicit := .p }
  | .constS => { mnemonic := "CONST.S", code := 0x21, slots := [.immediate], implicit := .s }
  | .zeroP => { mnemonic := "ZERO.P", code := 0x22, implicit := .p }
  | .zeroS => { mnemonic := "ZERO.S", code := 0x23, implicit := .s }
  | .pushC => { mnemonic := "PUSH.C", code := 0x24, slots := [.immediate] }
  | .loadP => { mnemonic := "LOAD.P", code := 0x30, slots := [.address], implicit := .p }
  | .loadS => { mnemonic := "LOAD.S", code := 0x31, slots := [.address], implicit := .s }
  | .storP => { mnemonic := "STOR.P", code := 0x32, slots := [.address], implicit := .p }
  | .storS => { mnemonic := "STOR.S", code := 0x33, slots := [.address], implicit := .s }
  | .incG => { mnemonic := "INC.G", code := 0x34, slots := [.address] }
  | .decG => { mnemonic := "DEC.G", code := 0x35, slots := [.address] }
  | .setm => { mnemonic := "SETM", code := 0x36, slots := [.address, .immediate] }
  | .loadLP =>
    { mnemonic := "LOAD.L.P", code := 0x40, slots := [.address], implicit := .p, storage := .frame }
  | .loadLS =>
    { mnemonic := "LOAD.L.S", code := 0x41, slots := [.address], implicit := .s, storage := .frame }
  | .storLP =>
    { mnemonic := "STOR.L.P", code := 0x42, slots := [.address], implicit := .p, storage := .frame }
  | .storLS =>
    { mnemonic := "STOR.L.S", code := 0x43, slots := [.address], implicit := .s, storage := .frame }
  | .addrLP =>
    { mnemonic := "ADDR.L.P", code := 0x44, slots := [.address], implicit := .p, storage := .frame }
  | .incL => { mnemonic := "INC.L", code := 0x45, slots := [.address], storage := .frame }
  | .decL => { mnemonic := "DEC.L", code := 0x46, slots := [.address], storage := .frame }
  | .liP => { mnemonic := "LI.P", code := 0x50, implicit := .p }
  | .siP => { mnemonic := "SI.P", code := 0x51, implicit := .both }
  | .moveP => { mnemonic := "MOVE.P", code := 0x52, implicit := .both }
  | .moveS => { mnemonic := "MOVE.S", code := 0x53, implicit := .both }
  | .xchg => { mnemonic := "XCHG", code := 0x54, implicit := .both }
  | .pushP => { mnemonic := "PUSH.P", code := 0x55, implicit := .p }
  | .pushS => { mnemonic := "PUSH.S", code := 0x56, implicit := .s }
  | .popP => { mnemonic := "POP.P", code := 0x57, implicit := .p }
  | .popS => { mnemonic := "POP.S", code := 0x58, implicit := .s }
  | .incP => { mnemonic := "INC.P", code := 0x59, implicit := .p }
  | .decP => { mnemonic := "DEC.P", code := 0x5A, implicit := .p }
  | .add => { mnemonic := "ADD", code := 0x60, implicit := .both }
  | .sub => { mnemonic := "SUB", code := 0x61, implicit := .both }
  | .mul => { mnemonic := "MUL", code := 0x62, implicit := .both }
  | .div => { mnemonic := "DIV", code := 0x63, implicit := .both }
  | .mod => { mnemonic := "MOD", code := 0x64, implicit := .both }
  | .and => { mnemonic := "AND", code := 0x65, implicit := .both }
  | .or => { mnemonic := "OR", code := 0x66, implicit := .both }
  | .xor => { mnemonic := "XOR", code := 0x67, implicit := .both }
  | .shl => { mnemonic := "SHL", code := 0x68, implicit := .both }
  | .shr => { mnemonic := "SHR", code := 0x69, implicit := .both }
  | .neg => { mnemonic := "NEG", code := 0x6A, implicit := .p }
  | .not => { mnemonic := "NOT", code := 0x6B, implicit := .p }
  | .eq => { mnemonic := "EQ", code := 0x70, implicit := .both }
  | .neq => { mnemonic := "NEQ", code := 0x71, implicit := .both }
  | .less => { mnemonic := "LESS", code := 0x72, implicit := .both }
  | .leq => { mnemonic := "LEQ", code := 0x73, implicit := .both }
  | .grtr => { mnemonic := "GRTR", code := 0x74, implicit := .both }
  | .geq => { mnemonic := "GEQ", code := 0x75, implicit := .both }
  | .jump => { mnemonic := "JUMP", code := 0x80, slots := [.label], patch := .absolute }
  | .jrel => { mnemonic := "JREL", code := 0x81, slots := [.label], patch := .relative }
  | .jzer =>
    { mnemonic := "JZER", code := 0x82, slots := [.label], implicit := .p, patch := .relative }
  | .jnz =>
    { mnemonic := "JNZ", code := 0x83, slots := [.label], implicit := .p, patch := .relative }
  | .jeq =>
    { mnemonic := "JEQ", code := 0x84, slots := [.label], implicit := .both, patch := .relative }
  | .jneq =>
    { mnemonic := "JNEQ", code := 0x85, slots := [.label], implicit := .both, patch := .relative }

/-- Every instruction once, in the order of the opcodes. -/
def all : List Op :=
  [.nop, .halt, .trap, .proc, .ret, .stack, .call, .calla, .constP, .constS, .zeroP, .zeroS,
   .pushC, .loadP, .loadS, .storP, .storS, .incG, .decG, .setm, .loadLP, .loadLS, .storLP,
   .storLS, .addrLP, .incL, .decL, .liP, .siP, .moveP, .moveS, .xchg, .pushP, .pushS, .popP,
   .popS, .incP, .decP, .add, .sub, .mul, .div, .mod, .and, .or, .xor, .shl, .shr, .neg, .not,
   .eq, .neq, .less, .leq, .grtr, .geq, .jump, .jrel, .jzer, .jnz, .jeq, .jneq]

/-- The name of the instruction. -/
def mnemonic (op : Op) : String := op.info.mnemonic

/-- The opcode of the instruction. -/
def code (op : Op) : UInt16 := op.info.code

/-- The operand kinds of the instruction. -/
def slots (op : Op) : List Kind := op.info.slots

/-- The storage class of the instruction's locations. -/
def storage (op : Op) : StorageClass := op.info.storage

/-- The rule for the instruction's label. -/
def patch (op : Op) : PatchRule := op.info.patch

/-- The number of cells of the instruction: one for the opcode and one for each slot. -/
def width (op : Op) : Nat := 1 + op.slots.length

/-- The opcode as the cell that is written for it. -/
def cell (op : Op) : Cell := op.code.toUInt64.toInt64

/-- The mnemonic and the operand kinds. -/
def text (op : Op) : String := op.mnemonic ++ shapeText op.slots

/-- The instruction with a given opcode. -/
def ofCode? (code : UInt16) : Option Op :=
  all.find? fun op => op.code == code

/-- The instruction with a given mnemonic, in either case. -/
def ofMnemonic? (mnemonic : String) : Option Op :=
  all.find? fun op => op.mnemonic == Text.capitals mnemonic

/-- The instruction whose opcode a whole cell is. A cell outside sixteen bits is none. -/
def ofCell? (cell : Cell) : Option Op :=
  if 0 ≤ cell ∧ cell ≤ 0xFFFF then ofCode? cell.toUInt64.toUInt16 else none

/-- Every instruction is listed. -/
theorem mem_all (op : Op) : op ∈ all := by
  cases op <;> decide

/-- An opcode leads back to its instruction. -/
theorem ofCode?_code (op : Op) : ofCode? op.code = some op := by
  cases op <;> rfl

/-- No two instructions share an opcode. -/
theorem code_injective {a b : Op} (h : a.code = b.code) : a = b := by
  have ha := ofCode?_code a
  rw [h, ofCode?_code b] at ha
  exact (Option.some.inj ha).symm

end Op

/-! ### Opcodes that may be unknown -/

/-- The low sixteen bits of a cell, read as an opcode. -/
def opcodeOf (cell : Cell) : UInt16 := cell.toUInt64.toUInt16

/-- The mnemonic of an opcode, or a text that shows an unknown one. -/
def opcodeText (code : UInt16) : String :=
  match Op.ofCode? code with
  | some op => op.mnemonic
  | none => "UNKNOWN_" ++ Text.padLeft '0' 2 (Text.hexUpper code.toNat)

/-- The width of an opcode's instruction; an unknown opcode takes one cell. -/
def opcodeWidth (code : UInt16) : Nat :=
  match Op.ofCode? code with
  | some op => op.width
  | none => 1

/-- Whether the opcode transfers control to a label: the jumps and the call within a stream. -/
def opcodeJumps (code : UInt16) : Bool :=
  (Op.jump.code ≤ code && code ≤ Op.jneq.code) || code == Op.call.code

end CellMachine
