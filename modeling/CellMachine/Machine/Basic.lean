import CellMachine.Memory.Basic

/-!
# The machine

A machine executes code in a memory. Its processor has two registers, `P` and `S`, a stack pointer,
a frame pointer, a program counter and the base of the running routine, from which absolute jumps
and calls are counted. The stack grows down from the top of memory.

A call pushes three cells below the arguments and their count: the base of the calling routine, the
return address and the old frame pointer. The new frame pointer is the address of the last of them.
-/

namespace CellMachine

/-- The number of instructions that a run may take if nothing else is said. -/
def defaultStepLimit : Int := 1000000

/-- A machine without its memory. -/
structure Processor where
  p : Cell := 0
  s : Cell := 0
  sp : Addr := 0
  fp : Addr := 0
  pc : Addr := 0
  /-- The start of the running routine. -/
  codeBase : Addr := 0
  /-- The number of instructions that the last run has taken. -/
  steps : Nat := 0
  /-- The number of instructions that a run may take; zero and less is no limit. -/
  stepLimit : Int := defaultStepLimit
  /-- The regions of the live activations, innermost first; `none` is memory outside regions. -/
  active : List (Option Nat) := []
  deriving DecidableEq, Repr

/-- A processor together with its memory. -/
structure Machine where
  processor : Processor
  memory : Memory
  deriving DecidableEq, Repr

/-- The return address that ends a run. -/
def returnSentinel : Addr := -1

namespace Machine

/-- Changes the processor. -/
def modifyProcessor (f : Processor → Processor) : Action Machine Unit := fun m =>
  match m with
  | ⟨processor, memory⟩ => .ok () ⟨f processor, memory⟩

/-- Does something to the memory. -/
def onMemory {α : Type} (action : Action Memory α) : Action Machine α := fun m =>
  match m with
  | ⟨processor, memory⟩ =>
    match action memory with
    | .ok a memory => .ok a ⟨processor, memory⟩
    | .error failure memory => .error failure ⟨processor, memory⟩

/-- The processor. -/
def getProcessor : Action Machine Processor := fun m => .ok m.processor m

/-- The cell at an address. -/
def load (a : Addr) : Action Machine Cell := fun m =>
  match m.memory.load a with
  | .ok v => .ok v m
  | .error failure => .error failure m

/-- Writes the cell at an address. -/
def store (a : Addr) (v : Cell) : Action Machine Unit := onMemory (Memory.store a v)

/-- Adds to the cell at an address. -/
def addTo (a : Addr) (delta : Cell) : Action Machine Unit := do
  let v ← load a
  store a (v + delta)

/-- Sets the register `P`. -/
def setP (v : Cell) : Action Machine Unit := modifyProcessor fun r => { r with p := v }

/-- Sets the register `S`. -/
def setS (v : Cell) : Action Machine Unit := modifyProcessor fun r => { r with s := v }

/-- Continues at an address. -/
def goto (a : Addr) : Action Machine Unit := modifyProcessor fun r => { r with pc := a }

/-! ### The stack -/

/-- Pushes a cell. -/
def push (v : Cell) : Action Machine Unit := fun m =>
  let sp := m.processor.sp - 1
  if sp < m.memory.limit then .error .stackOverflow m
  else
    match m with
    | ⟨processor, memory⟩ =>
      match Memory.store sp v memory with
      | .ok () memory => .ok () ⟨{ processor with sp }, memory⟩
      | .error failure memory => .error failure ⟨{ processor with sp }, memory⟩

/-- Pushes cells in their order. -/
def pushAll : List Cell → Action Machine Unit
  | [] => pure ()
  | v :: rest => do
    push v
    pushAll rest

/-- Pops a cell. -/
def pop : Action Machine Cell := do
  let m ← get
  if m.memory.size ≤ m.processor.sp.toInt then throw .stackUnderflow
  let v ← load m.processor.sp
  modifyProcessor fun r => { r with sp := r.sp + 1 }
  return v

/-! ### Activations -/

/-- Leaves the innermost activation. -/
def leaveOne (m : Machine) : Machine :=
  match m with
  | ⟨processor, memory⟩ =>
    match processor.active with
    | [] => ⟨processor, memory⟩
    | id? :: active => ⟨{ processor with active }, memory.leave id?⟩

/-- Leaves every activation. -/
def leaveAll (m : Machine) : Machine :=
  match m with
  | ⟨processor, memory⟩ =>
    ⟨{ processor with active := [] }, processor.active.foldl Memory.leave memory⟩

/-- Builds a frame that returns to `ret`, and enters the code at `target`. A region that is entered
becomes the running routine as a whole. -/
def call (target ret : Addr) : Action Machine Unit := do
  let span? ← onMemory (Memory.enter target)
  let id? := span?.map Span.id
  let r ← getProcessor
  fun m =>
    match pushAll [r.codeBase, ret, r.fp] m with
    | .error failure m => .error failure { m with memory := m.memory.leave id? }
    | .ok () m =>
      let codeBase := match span? with
        | some span => span.base
        | none => target
      .ok () { m with processor :=
        { m.processor with
          fp := m.processor.sp, active := id? :: m.processor.active, pc := target, codeBase } }

/-- Takes the frame down and continues after its call. The answer is whether the run is over. -/
def ret : Action Machine Bool := do
  modifyProcessor fun r => { r with sp := r.fp }
  let fp ← pop
  let pc ← pop
  let codeBase ← pop
  let count ← pop
  let m ← get
  if count < 0 ∨ m.memory.size < (m.processor.sp + count).toInt then
    throw (.argumentUnderflow count)
  modifyProcessor fun r => { r with sp := r.sp + count, fp, pc, codeBase }
  modify leaveOne
  return pc == returnSentinel

/-- Moves the stack pointer down by `count` cells, or up if the count is negative. -/
def reserve (count : Cell) : Action Machine Unit := do
  let m ← get
  let sp := m.processor.sp - count
  if sp < m.memory.limit then throw .stackOverflow
  if m.memory.size < sp.toInt then throw .stackUnderflow
  modifyProcessor fun r => { r with sp }

end Machine

end CellMachine
