import CellMachine.Memory.Basic
import CellMachine.Program.Image

/-!
# Loading images

An image is copied to its base address, into memory that is not handed out. Its globals are defined
and each of its routines becomes a region.
-/

namespace CellMachine

namespace Memory

/-- The first global of a list whose name is taken. -/
def takenGlobal? (m : Memory) (globals : List GlobalEntry) : Option String :=
  (globals.find? fun g => m.addresses.contains g.name).map GlobalEntry.name

/-- The first routine of a list whose name is taken. -/
def takenRegion? (m : Memory) (routines : List RoutineEntry) : Option String :=
  (routines.find? fun r => m.names.contains r.name).map RoutineEntry.name

/-- Notes the addresses of the globals of an image in their order. -/
def bindGlobals (m : Memory) (globals : List GlobalEntry) : Memory :=
  globals.foldl (fun m g => m.bindGlobal g.name g.addr) m

/-- Registers the routines of an image in their order. -/
def registerRoutines : List RoutineEntry → Action Memory Unit
  | [] => pure ()
  | r :: rest => do
    let span ← register r.name r.base r.capacity
    modify fun m => m.updateSpan span.id fun s => { s with length := r.capacity.toInt }
    registerRoutines rest

/-- Loads an image. -/
def loadImage [BaseOrder] (img : Image) : Action Memory Unit := do
  if img.version ≠ imageVersion then throw (.loadVersion img.version)
  Action.ofExcept img.checkLayout
  let m ← EStateM.get
  if img.base < m.next ∨ m.limit < img.limit then
    throw (.imageMisplaced img.base img.limit m.next m.limit)
  match m.takenGlobal? img.globals with
  | some name => throw (.globalTaken name)
  | none => pure ()
  match m.takenRegion? img.routines with
  | some name => throw (.regionTaken name)
  | none => pure ()
  copy img.base img.cells
  modify fun m => bindGlobals { m with next := img.limit } img.globals
  registerRoutines img.routines

/-- The cells and the base of the region of a name. -/
def dump (m : Memory) (name : String) : Except Failure (Array Cell × Addr) :=
  match m.spanNamed? name with
  | none => .error (.unknownRegion name)
  | some s => (m.slice s.base s.capacity).map fun cells => (cells, s.base)

end Memory

end CellMachine
