import CellMachine.Emission.Buffer
import CellMachine.Memory.Search
import CellMachine.Operand.Symbol

/-!
# Memory

The cells of a machine. Low memory is handed out from address zero upwards; the top cells are the
stack. Spans are the registered regions: stretches of memory that can be called, and overwritten
under a lease. They are kept in the order of their bases, and the span of an address is found by
binary search; the span of a name is found by an index of names. The globals have a table of their
addresses and a list of their names in the order of their definition.

All sums of addresses and sizes wrap around, as they do in the machine.
-/

namespace CellMachine

/-- A registered region. -/
structure Span where
  /-- A number that no other span of the memory has. -/
  id : Nat
  /-- The name; the empty text for a region without one. -/
  name : String
  base : Addr
  capacity : Int64
  /-- The length of the stream that was sealed last. -/
  length : Int := 0
  /-- The open lease on the region. -/
  lease? : Option Nat := none
  /-- The number of activations inside the region. -/
  running : Nat := 0
  poisoned : Bool := false
  deriving DecidableEq, Repr

namespace Span

/-- The address after the last cell. -/
def limit (s : Span) : Addr := s.base + s.capacity

/-- Whether an address lies in the region. -/
def contains (s : Span) (a : Addr) : Bool := s.base ≤ a && a < s.limit

/-- The region as messages name it. -/
def label (s : Span) : String :=
  if s.name.isEmpty then "region at " ++ Addr.text s.base else "region " ++ s.name

end Span

/-- A grant to overwrite a region. -/
structure Lease where
  /-- The number of the region. -/
  span : Nat
  /-- Whether an emission is bound to the lease. -/
  bound : Bool := false
  /-- Whether a cell was written under the lease. -/
  written : Bool := false
  /-- Whether the lease was sealed, poisoned or released. -/
  done : Bool := false
  deriving DecidableEq, Repr

/-- Values under names. -/
structure NameMap (α : Type) where
  /-- The names with their values; an earlier entry hides the later ones of its name. -/
  entries : List (String × α) := []
  deriving DecidableEq, Repr

namespace NameMap

variable {α : Type}

/-- The value of a name. -/
def lookup (t : NameMap α) (name : String) : Option α := t.entries.lookup name

/-- Whether a name has a value. -/
def contains (t : NameMap α) (name : String) : Bool := (t.lookup name).isSome

/-- Gives a name a value. -/
def insert (t : NameMap α) (name : String) (a : α) : NameMap α := ⟨(name, a) :: t.entries⟩

end NameMap

/-- The memory of a machine. -/
structure Memory where
  cells : Array Cell
  /-- The first cell that is not handed out. -/
  next : Addr := 0
  /-- The first cell of the stack. -/
  limit : Addr
  /-- The regions in the order of their bases. -/
  spans : Array Span := #[]
  /-- The numbers of the regions that have names, under their names. -/
  names : NameMap Nat := {}
  /-- All leases ever granted; a lease is named by its index. -/
  leases : Array Lease := #[]
  /-- The addresses of the global variables. -/
  addresses : NameMap Addr := {}
  /-- The names of the global variables in the order of their definition. -/
  order : List String := []
  deriving DecidableEq, Repr

/-- The number of stack cells if none is asked for. -/
def defaultStackCells : Int := 1024

namespace Memory

/-- A memory of `size` cells, the top `stack` of which are the stack. -/
def new (size stack : Int) : Except Failure Memory :=
  let stack := if stack ≤ 0 then defaultStackCells else stack
  if size ≤ stack then .error (.stackTooLarge size stack)
  else (zeroCells size).map fun cells => { cells, limit := Int64.ofInt (size - stack) }

/-- The number of cells. -/
def size (m : Memory) : Nat := m.cells.size

/-- The number of cells that are not handed out. -/
def free (m : Memory) : Int := (m.limit - m.next).toInt

/-! ### Cells -/

/-- Whether an address is that of a cell. -/
def inBounds (m : Memory) (a : Addr) : Bool := 0 ≤ a && a.toInt < m.cells.size

/-- The cell at an address, without a check before it. -/
def get (m : Memory) (a : Addr) : Except Failure Cell :=
  if a < 0 then .error .crash
  else match m.cells[a.toInt.toNat]? with
    | some v => .ok v
    | none => .error .crash

/-- Writes the cell at an address, without a check before it. -/
def put (a : Addr) (v : Cell) : Action Memory Unit := fun m =>
  if m.inBounds a then .ok () { m with cells := m.cells.setIfInBounds a.toInt.toNat v }
  else .error .crash m

/-- The cell at an address. -/
def load (m : Memory) (a : Addr) : Except Failure Cell :=
  if m.inBounds a then m.get a else .error (.outOfBounds (.load a))

/-- Writes the cell at an address. -/
def store (a : Addr) (v : Cell) : Action Memory Unit := fun m =>
  if m.inBounds a then put a v m else .error (.outOfBounds (.store a)) m

/-- The `n` cells from an address on. -/
def slice (m : Memory) (a : Addr) (n : Int64) : Except Failure (Array Cell) :=
  if n < 0 ∨ !m.inBounds a ∨ (0 < n ∧ !m.inBounds (a + (n - 1))) then
    .error (.outOfBounds (.slice a n.toInt))
  else .ok (m.cells.extract a.toInt.toNat (a + n).toInt.toNat)

/-- Writes cells from an address on, as far as memory goes. -/
def copy (base : Addr) (cells : Array Cell) : Action Memory Unit := fun m =>
  if base < 0 ∨ m.size < base.toInt then .error .crash m
  else
    let start := base.toInt.toNat
    let kept := m.cells.extract 0 start
    let fitting := cells.extract 0 (m.size - start)
    let after := m.cells.extract (start + fitting.size) m.size
    .ok () { m with cells := kept ++ fitting ++ after }

/-! ### Allocation and globals -/

/-- Hands `n` cells out. -/
def alloc (n : Int64) : Action Memory Addr := fun m =>
  if n < 0 ∨ m.limit < m.next + n then .error (.noRoom n.toInt m.free) m
  else .ok m.next { m with next := m.next + n }

/-- The address of a global. -/
def globalAddr? (m : Memory) (name : String) : Option Addr := m.addresses.lookup name

/-- The globals with their addresses, in the order of their definition. -/
def globals (m : Memory) : List (String × Addr) :=
  m.order.map fun name => (name, (m.globalAddr? name).getD 0)

/-- Notes the address of a new global. -/
def bindGlobal (m : Memory) (name : String) (a : Addr) : Memory :=
  { m with addresses := m.addresses.insert name a, order := m.order ++ [name] }

/-- Defines a global in a cell of its own. -/
def defineGlobal (name : String) (init : Cell) : Action Memory Addr := do
  let m ← EStateM.get
  if m.addresses.contains name then throw (.globalTaken name)
  let a ← alloc 1
  put a init
  modify fun m => m.bindGlobal name a
  return a

/-- The contents of a global. -/
def global (m : Memory) (name : String) : Except Failure Cell :=
  match m.globalAddr? name with
  | none => .error (.unknownGlobal name)
  | some a => m.get a

/-- Overwrites the contents of a global. -/
def setGlobal (name : String) (v : Cell) : Action Memory Unit := fun m =>
  match m.globalAddr? name with
  | none => .error (.unknownGlobal name) m
  | some a => put a v m

/-- The symbol of a global. What it contains at run time is not told. -/
def globalSymbol (addresses : NameMap Addr) : SymbolTable := fun name =>
  (addresses.lookup name).map fun a => { name, storage := .global, location := a }

/-- The globals as symbols. -/
def symbols (m : Memory) : SymbolTable := globalSymbol m.addresses

/-! ### Spans -/

/-- The region with a number. -/
def span? (m : Memory) (id : Nat) : Option Span := m.spans.find? fun s => s.id == id

/-- The region of a name. -/
def spanNamed? (m : Memory) (name : String) : Option Span := (m.names.lookup name).bind m.span?

/-- Changes the region with a number. -/
def updateSpan (m : Memory) (id : Nat) (f : Span → Span) : Memory :=
  { m with spans := m.spans.map fun s => if s.id = id then f s else s }

/-- The index of the first region whose base satisfies a test. -/
def searchSpans (m : Memory) (p : Addr → Bool) : Nat :=
  search m.spans.size fun i =>
    match m.spans[i]? with
    | some s => p s.base
    | none => true

/-- The region that contains an address. -/
def find? (m : Memory) (a : Addr) : Option Span :=
  match m.searchSpans (fun base => a < base) with
  | 0 => none
  | i + 1 =>
    match m.spans[i]? with
    | some s => if s.contains a then some s else none
    | none => none

/-- The neighbour that a new region would overlap, if it stood at the index `i`. -/
def overlapped? (m : Memory) (i : Nat) (base : Addr) (capacity : Int64) : Option Span :=
  let before := if i = 0 then none else m.spans[i - 1]?
  match before.filter fun s => base < s.limit with
  | some s => some s
  | none => m.spans[i]?.filter fun s => s.base < base + capacity

/-- The index with the number of one more region. The empty text names none. -/
def namesWith (m : Memory) (s : Span) : NameMap Nat :=
  if s.name = "" then m.names else m.names.insert s.name s.id

/-- Registers a region. It must not overlap its neighbours, and its name must be new. -/
def register (name : String) (base : Addr) (capacity : Int64) : Action Memory Span := fun m =>
  if name ≠ "" ∧ m.names.contains name then .error (.regionTaken name) m
  else
    let i := m.searchSpans fun b => base ≤ b
    match m.overlapped? i base capacity with
    | some s => .error (.regionOverlap s.name) m
    | none =>
      let span : Span := { id := m.spans.size, name, base, capacity }
      .ok span { m with
        spans := m.spans.insertIdxIfInBounds i span
        names := m.namesWith span }

/-- The cells of a routine that returns zero. -/
def stub : Array Cell := #[Op.proc.cell, Op.zeroP.cell, Op.ret.cell]

/-- The cells of a new region that has room for some number of them: the routine that returns zero,
and `NOP` after it. -/
def stubCells (room : Int) : Array Cell :=
  stub ++ Array.replicate (room.toNat - stub.size) Op.nop.cell

/-- Fills a new region as far as memory goes. -/
def fillStub (base : Addr) (capacity : Int64) : Action Memory Unit := do
  let m ← EStateM.get
  let room := m.size - base.toInt
  copy base (stubCells (min capacity.toInt room))
  if max room stub.size < capacity.toInt then throw .crash

/-- Reserves a named region and installs a routine in it that returns zero, so that it can be
called before it is overwritten. -/
def reserve (name : String) (capacity : Int64) : Action Memory Span := do
  if capacity.toInt < minRegionCells then throw (.regionTooSmall name capacity.toInt)
  let m ← EStateM.get
  if m.names.contains name then throw (.regionTaken name)
  let base ← alloc capacity
  fillStub base capacity
  let span ← register name base capacity
  modify fun m => m.updateSpan span.id fun s => { s with length := stub.size }
  return { span with length := stub.size }

/-! ### Activations -/

/-- Marks the region of an address as executing. A region that is leased or poisoned is not
entered; memory outside every region has nothing to mark. -/
def enter (a : Addr) : Action Memory (Option Span) := fun m =>
  if !m.inBounds a then .error (.outOfBounds (.enter a)) m
  else match m.find? a with
    | none => .ok none m
    | some s =>
      if s.lease?.isSome then .error (.regionBusy (.overwritten s.label)) m
      else if s.poisoned then .error (.regionPoisoned s.label) m
      else .ok (some s) (m.updateSpan s.id fun s => { s with running := s.running + 1 })

/-- Takes back one mark of `enter`. -/
def leave (m : Memory) : Option Nat → Memory
  | none => m
  | some id => m.updateSpan id fun s => { s with running := s.running - 1 }

end Memory

end CellMachine
