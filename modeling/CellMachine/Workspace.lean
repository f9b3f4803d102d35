import CellMachine.Assembly.Basic
import CellMachine.Machine.Step
import CellMachine.Memory.Load
import CellMachine.Patch.Apply

/-!
# Workspaces

A workspace holds everything that is at work side by side: buffers, memories, programs, emissions,
blocks and processors. Each is named by its index, and what refers to another one does so by index
too. So two leases on one memory, or a block and its program, see the same state at all times.

An index that names nothing is a crash; the indices that a workspace has handed out always name
something, since nothing is ever removed.
-/

namespace CellMachine

/-- A region that emissions can be opened on. -/
inductive RegionRef
  | buffer (index : Nat)
  | lease (memory lease : Nat)
  deriving DecidableEq, Repr

/-- Where an emission looks its symbols up. -/
inductive SymbolSource
  | table (symbols : SymbolTable)
  | memory (index : Nat)
  | program (index : Nat)

/-- An emission that was opened on a region. -/
structure OpenedEmission where
  context : Context
  region : RegionRef
  symbols? : Option SymbolSource

/-- An emission: one that was opened on a region, or the emission inside a block. -/
inductive EmissionRef
  | opened (index : Nat)
  | block (index : Nat)
  deriving DecidableEq, Repr

/-- A block and the program that it belongs to. -/
structure PlacedBlock where
  block : Block
  program : Nat

/-- A processor and the memory that it works in. -/
structure PlacedProcessor where
  processor : Processor
  memory : Nat

/-- All that is at work side by side. -/
structure Workspace where
  buffers : Array Buffer := #[]
  memories : Array Memory := #[]
  programs : Array Program := #[]
  emissions : Array OpenedEmission := #[]
  blocks : Array PlacedBlock := #[]
  processors : Array PlacedProcessor := #[]

namespace Workspace

variable {α : Type}

/-! ### Parts -/

/-- Does something to a buffer. -/
def onBuffer (i : Nat) (action : Action Buffer α) : Action Workspace α := fun w =>
  match w.buffers[i]? with
  | none => .error .crash w
  | some buffer =>
    match action buffer with
    | .ok a buffer => .ok a { w with buffers := w.buffers.setIfInBounds i buffer }
    | .error e buffer => .error e { w with buffers := w.buffers.setIfInBounds i buffer }

/-- Does something to a memory. -/
def onMemory (i : Nat) (action : Action Memory α) : Action Workspace α := fun w =>
  match w.memories[i]? with
  | none => .error .crash w
  | some memory =>
    match action memory with
    | .ok a memory => .ok a { w with memories := w.memories.setIfInBounds i memory }
    | .error e memory => .error e { w with memories := w.memories.setIfInBounds i memory }

/-- Does something to a memory through one of its leases. -/
def onLease (i lease : Nat) (action : Action Leasehold α) : Action Workspace α :=
  onMemory i fun memory =>
    match action { lease, memory } with
    | .ok a h => .ok a h.memory
    | .error e h => .error e h.memory

/-- Does something to a program. -/
def onProgram (i : Nat) (action : Action Program α) : Action Workspace α := fun w =>
  match w.programs[i]? with
  | none => .error .crash w
  | some program =>
    match action program with
    | .ok a program => .ok a { w with programs := w.programs.setIfInBounds i program }
    | .error e program => .error e { w with programs := w.programs.setIfInBounds i program }

/-- Does something to a region. -/
def onRegion (r : RegionRef) (action : {ρ : Type} → [Region ρ] → Action ρ α) :
    Action Workspace α :=
  match r with
  | .buffer i => onBuffer i action
  | .lease memory lease => onLease memory lease action

/-- Does something to a block in its program. -/
def onBlock (i : Nat) (action : Action Worksite α) : Action Workspace α := fun w =>
  match w.blocks[i]? with
  | none => .error .crash w
  | some placed =>
    let restore (block : Block) (w : Workspace) : Workspace :=
      { w with blocks := w.blocks.setIfInBounds i { placed with block } }
    let result := onProgram placed.program (fun program =>
      match action ⟨placed.block, program⟩ with
      | .ok a s => .ok ((Except.ok a : Except Failure α), s.block) s.program
      | .error e s => .ok (Except.error e, s.block) s.program) w
    match result with
    | .ok (.ok a, block) w => .ok a (restore block w)
    | .ok (.error e, block) w => .error e (restore block w)
    | .error e w => .error e w

/-- Does something to a processor in its memory. -/
def onMachine (i : Nat) (action : Action Machine α) : Action Workspace α := fun w =>
  match w.processors[i]? with
  | none => .error .crash w
  | some placed =>
    let restore (processor : Processor) (w : Workspace) : Workspace :=
      { w with processors := w.processors.setIfInBounds i { placed with processor } }
    let result := onMemory placed.memory (fun memory =>
      match action ⟨placed.processor, memory⟩ with
      | .ok a m => .ok ((Except.ok a : Except Failure α), m.processor) m.memory
      | .error e m => .ok (Except.error e, m.processor) m.memory) w
    match result with
    | .ok (.ok a, processor) w => .ok a (restore processor w)
    | .ok (.error e, processor) w => .error e (restore processor w)
    | .error e w => .error e w

/-! ### New parts -/

/-- Adds a buffer. -/
def addBuffer (base : Addr) (capacity : Int) : Action Workspace Nat := fun w =>
  match Buffer.new base capacity with
  | .error e => .error e w
  | .ok buffer => .ok w.buffers.size { w with buffers := w.buffers.push buffer }

/-- Adds a memory. -/
def addMemory (size stack : Int) : Action Workspace Nat := fun w =>
  match Memory.new size stack with
  | .error e => .error e w
  | .ok memory => .ok w.memories.size { w with memories := w.memories.push memory }

/-- Adds a program. -/
def addProgram (dataBase : Addr) (dataCells : Int) : Action Workspace Nat := fun w =>
  match Program.new dataBase dataCells with
  | .error e => .error e w
  | .ok program => .ok w.programs.size { w with programs := w.programs.push program }

/-- Adds a processor to a memory. -/
def addProcessor (memory : Nat) (stepLimit : Int) : Action Workspace Nat := fun w =>
  .ok w.processors.size
    { w with processors := w.processors.push { processor := { stepLimit }, memory } }

/-- Opens a block in a program. -/
def openBlock (program : Nat) (capacity : Int) : Action Workspace Nat := do
  let block ← onProgram program (Program.openBlock capacity)
  fun w => .ok w.blocks.size { w with blocks := w.blocks.push { block, program } }

/-- A fresh context on a region. -/
def freshContext {ρ : Type} [Region ρ] : (mode : Mode) → Action ρ Context
  | .static => fun region => .ok (Context.openStatic region) region
  | .dynamic => Context.openDynamic

/-- Opens an emission on a region; without one it is refused. -/
def openEmission (mode : Mode) (region? : Option RegionRef) (symbols? : Option SymbolSource) :
    Action Workspace Nat := do
  match region? with
  | none => throw .noRegion
  | some region =>
    let context ← onRegion region (freshContext mode)
    fun w =>
      .ok w.emissions.size { w with emissions := w.emissions.push { context, region, symbols? } }

/-! ### Emissions -/

/-- The symbols of a source at present. -/
def symbols? (w : Workspace) : SymbolSource → Option SymbolTable
  | .table symbols => some symbols
  | .memory i => w.memories[i]?.map Memory.symbols
  | .program i => w.programs[i]?.map fun p => p.scope.symbol?

/-- Does something to an emission on its region, with the symbols that it has at present. -/
def onEmission (e : EmissionRef)
    (action : {ρ : Type} → [Region ρ] → Option SymbolTable → Action (Emission ρ) α) :
    Action Workspace α := fun w =>
  match e with
  | .block i => onBlock i (fun s => Worksite.onEmission (action s.symbols) s) w
  | .opened i =>
    match w.emissions[i]? with
    | none => .error .crash w
    | some opened =>
      let symbols? := opened.symbols?.bind w.symbols?
      let restore (context : Context) (w : Workspace) : Workspace :=
        { w with emissions := w.emissions.setIfInBounds i { opened with context } }
      let result := onRegion opened.region (fun region =>
        match action symbols? { context := opened.context, region } with
        | .ok a e => .ok ((Except.ok a : Except Failure α), e.context) e.region
        | .error f e => .ok (Except.error f, e.context) e.region) w
      match result with
      | .ok (.ok a, context) w => .ok a (restore context w)
      | .ok (.error f, context) w => .error f (restore context w)
      | .error f w => .error f w

/-- What an emission shows of itself: its context and the base of its region. -/
def emissionView (e : EmissionRef) : Action Workspace (Context × Addr) :=
  onEmission e fun _ => fun s => .ok (s.context, Region.base s.region) s

/-- The cells that an emission has written so far. -/
def emissionCells (e : EmissionRef) : Action Workspace (List Cell) :=
  onEmission e fun _ => fun s =>
    match s.cells s.context.cursor with
    | .ok cells => .ok cells s
    | .error f => .error f s

/-! ### Patches -/

/-- Applies patches to a memory in their order, up to the first that fails. The routines that were
put there are told in either case. -/
def patch (memory : Nat) (patches : List Patch) :
    Action Workspace (List Routine × Option Failure) :=
  onMemory memory fun memory =>
    match Patched.applyAll patches { memory } with
    | .ok () s => .ok (s.done.toList, none) s.memory
    | .error e s => .ok (s.done.toList, some e) s.memory

end Workspace

end CellMachine
