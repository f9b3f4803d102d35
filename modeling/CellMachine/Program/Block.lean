import CellMachine.Emission.Context
import CellMachine.Program.Basic

/-!
# Blocks

A block is a static emission inside a routine of a program. Its segment is a buffer at the position
where the block was opened; sealing the segment appends its stream to the program, as long as the
program has not moved on in the meantime. Conditionals around instructions select branches: only
the instructions and labels of selected branches reach the emission.
-/

namespace CellMachine

/-- The region behind a block. -/
structure Segment where
  buffer : Buffer
  /-- The start of the routine around the block. -/
  entry : Addr
  deriving Repr

/-- A segment together with the program that it belongs to. -/
structure Placement where
  segment : Segment
  program : Program
  deriving Repr

namespace Placement

/-- Does something to the buffer of the segment. -/
def onBuffer {α : Type} (action : Action Buffer α) : Action Placement α := fun s =>
  match action s.segment.buffer with
  | .ok a buffer => .ok a { s with segment := { s.segment with buffer } }
  | .error failure buffer => .error failure { s with segment := { s.segment with buffer } }

/-- Appends the first `length` cells of the segment to the program. It fails if something was
appended since the segment was opened. -/
def sealUp (length : Int) : Action Placement Unit := do
  let s ← get
  if s.program.here ≠ s.segment.buffer.base then
    throw (.siteMoved s.segment.buffer.base s.program.here)
  onBuffer (Buffer.sealUp length)
  let s ← get
  let cells ← Action.ofExcept s.segment.buffer.contents
  set { s with program := s.program.append cells }

end Placement

instance : Region Placement where
  base s := s.segment.buffer.base
  capacity s := s.segment.buffer.cells.size
  origin s := (s.segment.buffer.base - s.segment.entry).toInt
  load s := s.segment.buffer.load
  store offset v := Placement.onBuffer (Buffer.store offset v)
  attest := Placement.onBuffer Buffer.attest
  sealUp := Placement.sealUp
  poison := Placement.onBuffer Buffer.poison

/-- One level of conditionals. -/
structure Level where
  /-- The current branch is selected. -/
  active : Bool
  /-- Some branch of the level had a true condition. -/
  taken : Bool
  /-- The level itself stands in selected code. -/
  outer : Bool
  /-- The last branch has been reached. -/
  sawElse : Bool := false
  deriving DecidableEq, Repr

/-- A static emission inside a routine. -/
structure Block where
  /-- The number of the block in its program. -/
  id : Nat
  context : Context
  segment : Segment
  /-- The open conditionals, innermost first. -/
  levels : List Level := []
  /-- The number of instructions in branches not selected. -/
  skipped : Nat := 0
  deriving Repr

/-- The number of cells of a block for which no capacity is asked. -/
def defaultBlockCells : Int := 4096

/-- Opens a block at the current position. It must be inside a routine, and no other block may be
open. -/
def Program.openBlock (capacity : Int) : Action Program Block := fun p =>
  match p.current? with
  | none => .error .noRoutine p
  | some r =>
    if p.openBlock?.isSome then .error .blockOpen p
    else
      match Buffer.new p.here (if capacity ≤ 0 then defaultBlockCells else capacity) with
      | .error failure => .error failure p
      | .ok buffer =>
        let segment : Segment := { buffer, entry := r.base }
        let context := Context.openStatic (Placement.mk segment p)
        .ok { id := p.blocks, context, segment }
          { p with openBlock? := some p.blocks, blocks := p.blocks + 1 }

namespace Block

/-- Whether instructions reach the emission at present. -/
def active (b : Block) : Bool :=
  match b.levels with
  | [] => true
  | level :: _ => level.active

/-! ### Conditionals -/

/-- Opens a level of conditionals. -/
def openIf (b : Block) (cond : Bool) : Block :=
  let outer := b.active
  { b with levels := { active := outer && cond, taken := cond, outer } :: b.levels }

/-- Goes on to the next branch of the innermost level. -/
def elseIf (cond : Bool) : Action Block Unit := fun b =>
  match b.levels with
  | [] => .error (.unbalanced (.outside "elseif")) b
  | level :: outer =>
    if level.sawElse then .error (.unbalanced .elseIfAfterElse) b
    else
      let active := level.outer && !level.taken && cond
      .ok () { b with levels := { level with active, taken := level.taken || cond } :: outer }

/-- Goes on to the last branch of the innermost level. -/
def elseLast : Action Block Unit := fun b =>
  match b.levels with
  | [] => .error (.unbalanced (.outside "else")) b
  | level :: outer =>
    if level.sawElse then .error (.unbalanced .secondElse) b
    else
      let active := level.outer && !level.taken
      .ok () { b with levels := { level with active, taken := true, sawElse := true } :: outer }

/-- Closes the innermost level. -/
def endIf : Action Block Unit := fun b =>
  match b.levels with
  | [] => .error (.unbalanced (.outside "endif")) b
  | _ :: levels => .ok () { b with levels }

end Block

/-! ### A block at work in its program -/

/-- A block together with its program. -/
structure Worksite where
  block : Block
  program : Program
  deriving Repr

namespace Worksite

/-- Does something to the block alone. -/
def onBlock {α : Type} (action : Action Block α) : Action Worksite α := fun w =>
  match action w.block with
  | .ok a block => .ok a { w with block }
  | .error failure block => .error failure { w with block }

/-- The emission of the block, with its segment placed in the program. -/
def emission (w : Worksite) : Emission Placement :=
  { context := w.block.context, region := ⟨w.block.segment, w.program⟩ }

/-- Takes the emission back apart. -/
def ofEmission (w : Worksite) (e : Emission Placement) : Worksite where
  block := { w.block with context := e.context, segment := e.region.segment }
  program := e.region.program

/-- Does something to the emission of the block. -/
def onEmission {α : Type} (action : Action (Emission Placement) α) : Action Worksite α := fun w =>
  match action w.emission with
  | .ok a e => .ok a (w.ofEmission e)
  | .error failure e => .error failure (w.ofEmission e)

/-- Counts an instruction of a branch not selected. -/
def skip : Action Worksite Unit := onBlock (modify fun b => { b with skipped := b.skipped + 1 })

/-- The symbols that the program has at present. -/
def symbols (w : Worksite) : Option SymbolTable := some w.program.scope.symbol?

/-- Emits the instruction of a mnemonic, unless the branch is not selected. -/
def emit (mnemonic : String) (operands : List Operand) : Action Worksite Unit := do
  let w ← get
  if w.block.active then onEmission (Emission.emit w.symbols mnemonic operands) else skip

/-- Emits an instruction, unless the branch is not selected. -/
def emitOp (op : Op) (operands : List Operand) : Action Worksite Unit := do
  let w ← get
  if w.block.active then onEmission (Emission.emitOp w.symbols op operands) else skip

/-- Defines a label, unless the branch is not selected. -/
def label (name : String) : Action Worksite Unit := do
  let w ← get
  if w.block.active then onEmission (Emission.defineLabel name)

/-- Closes the block and appends its stream to the program. -/
def close : Action Worksite Routine := do
  let w ← get
  if !w.block.levels.isEmpty then throw (.unbalanced (.unclosed w.block.levels.length))
  let routine ← onEmission Emission.finalize
  modify fun w => { w with program := { w.program with openBlock? := none } }
  return routine

/-- Gives the block up. Nothing is appended to the program. -/
def discard : Action Worksite Unit := do
  modify fun w =>
    if w.program.openBlock? = some w.block.id then
      { w with program := { w.program with openBlock? := none } }
    else w
  onEmission Emission.discard

end Worksite

end CellMachine
