import CellMachine.Emission.Buffer
import CellMachine.Program.Image
import CellMachine.Program.Scope

/-!
# Programs under construction

A program has a data segment, whose size is fixed at the start, and a code segment after it, which
grows. Globals take data cells in the order of their declaration; routines take code cells, one
routine after the other. Linking lays data and code out as an image.
-/

namespace CellMachine

/-- A routine that is being built. -/
structure OpenRoutine where
  name : String
  base : Addr
  deriving DecidableEq, Repr

/-- A program under construction. -/
structure Program where
  dataBase : Addr
  /-- The number of data cells. -/
  dataCells : Nat
  code : Array Cell := #[]
  scope : Scope := {}
  /-- The finished routines in the order in which they ended. -/
  routines : Array RoutineEntry := #[]
  current? : Option OpenRoutine := none
  /-- The block that is open, by its number. -/
  openBlock? : Option Nat := none
  /-- The number of blocks that were ever opened. -/
  blocks : Nat := 0
  deriving Repr

namespace Program

/-- An empty program. A negative count of data cells is none. -/
def new (dataBase : Addr) (dataCells : Int) : Except Failure Program :=
  if maxCells < dataCells then .error .crash else .ok { dataBase, dataCells := dataCells.toNat }

/-- The address of the first code cell. -/
def codeBase (p : Program) : Addr := p.dataBase + Int64.ofNat p.dataCells

/-- The address of the next code cell. -/
def here (p : Program) : Addr := p.codeBase + Int64.ofNat p.code.size

/-- Declares a global and gives it the next data cell. -/
def declareGlobal (name : String) (init : Cell) : Action Program Addr := fun p =>
  let used := p.scope.globals.length
  if p.dataCells ≤ used then .error (.dataFull p.dataCells name) p
  else
    let addr := p.dataBase + Int64.ofNat used
    match Scope.declareGlobal name addr init p.scope with
    | .ok () scope => .ok addr { p with scope }
    | .error failure _ => .error failure p

/-- Declares a local of the current routine. -/
def declareLocal (name : String) (offset : Cell) : Action Program Unit := fun p =>
  match Scope.declareLocal name offset p.scope with
  | .ok () scope => .ok () { p with scope }
  | .error failure _ => .error failure p

/-- Puts cells at the end of the code. -/
def append (p : Program) (cells : Array Cell) : Program :=
  { p with code := p.code ++ cells }

/-- Starts a routine at the current position and opens a frame for its locals. -/
def beginRoutine (name : String) : Action Program Unit := fun p =>
  match p.current? with
  | some r => .error (.routineOpen r.name) p
  | none =>
    if p.routines.any fun r => r.name == name then .error (.duplicateRoutine name) p
    else .ok () { p with current? := some { name, base := p.here }, scope := p.scope.push }

/-- Ends the current routine. A routine shorter than `reserve` is padded with `NOP`, so that it can
be replaced by a longer one later. -/
def endRoutine (reserve : Int) : Action Program RoutineEntry := fun p =>
  match p.current? with
  | none => .error .noRoutine p
  | some r =>
    if p.openBlock?.isSome then .error (.blockOpenIn r.name) p
    else
      let length := (p.here - r.base).toInt
      if 0 < reserve ∧ reserve < length then
        .error (.reserveTooSmall r.name length reserve) p
      else
        let entry : RoutineEntry :=
          { name := r.name, base := r.base, capacity := Int64.ofInt (max length reserve) }
        let p := p.append (Array.replicate (reserve - length).toNat Op.nop.cell)
        let p := { p with routines := p.routines.push entry, current? := none }
        match Scope.pop p.scope with
        | .ok () scope => .ok entry { p with scope }
        | .error failure _ => .error failure p

/-- The data cells: the contents of the globals, and zeros. -/
def data (p : Program) : Array Cell :=
  (p.scope.globals.map DeclaredGlobal.init).toArray ++
    Array.replicate (p.dataCells - p.scope.globals.length) 0

/-- Lays the program out as an image: the data, then the code. -/
def link (p : Program) : Except Failure Image :=
  match p.current? with
  | some r => .error (.routineOpen r.name)
  | none => .ok {
      version := imageVersion
      base := p.dataBase
      cells? := some (p.data ++ p.code)
      globals := p.scope.globals.map fun g => ⟨g.name, g.addr⟩
      routines := p.routines.toList }

end Program

end CellMachine
