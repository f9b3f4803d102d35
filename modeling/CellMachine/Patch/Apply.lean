import CellMachine.Memory.Lease
import CellMachine.Patch.Parse
import CellMachine.Emission.Context

/-!
# Applying patches

A patch leases its region, emits its body there and seals the lease. Names in the body are the
globals of the memory. If the body fails before an instruction was written, the region keeps what
it held; if it fails later, the region is filled with traps and cannot be entered until another
patch succeeds.
-/

namespace CellMachine

namespace Emission

variable {ρ : Type} [Region ρ]

/-- Emits the label and the instruction of a statement. -/
def statement (symbols? : Option SymbolTable) (st : Statement) : Action (Emission ρ) Unit := do
  match st.label? with
  | some name => defineLabel name
  | none => pure ()
  match st.op? with
  | some op => emit symbols? op (← Action.ofExcept st.operands)
  | none => pure ()

/-- Emits statements in their order; a failure is reported at its place. -/
def statements (symbols? : Option SymbolTable) : List Statement → Action (Emission ρ) Unit
  | [] => pure ()
  | st :: rest => do
    Action.at st.pos (statement symbols? st)
    statements symbols? rest

end Emission

namespace Patch

/-- Leases the region of a target. -/
def lease : PatchTarget → Action Memory Nat
  | .region name => Memory.leaseNamed name
  | .range base capacity => Memory.leaseAt base capacity

/-- Emits the body and seals the region. -/
def write (p : Patch) (symbols : SymbolTable) : Action (Emission Leasehold) Routine := do
  Emission.statements (some symbols) p.body
  Action.at p.pos fun e =>
    match Emission.finalize e with
    | .ok routine e => .ok routine e
    | .error cause e => .error (.inPatch p.target.text cause) e

/-- Gives a failed patch up and reports its failure. A region without a new instruction is given
back as it was; any other is discarded. -/
def abandon (failure : Failure) (e : Emission Leasehold) : Failure × Leasehold :=
  if e.context.cursor = 0 then
    match Leasehold.release e.region with
    | .ok () h => (failure, h)
    | .error _ h => (failure, h)
  else
    match Emission.discard e with
    | .ok () e => (failure, e.region)
    | .error cause e => (if cause.crashed then cause else failure, e.region)

/-- Overwrites a leased region. -/
def overwrite (p : Patch) (symbols : SymbolTable) : Action Leasehold Routine := fun h =>
  match Context.openDynamic h with
  | .error cause h =>
    match Leasehold.release h with
    | .ok () h => .error (.atLine p.pos cause) h
    | .error _ h => .error (.atLine p.pos cause) h
  | .ok context region =>
    match p.write symbols { context, region } with
    | .ok routine e => .ok routine e.region
    | .error failure e =>
      let (failure, h) := abandon failure e
      .error failure h

/-- Applies a patch. -/
def apply (p : Patch) : Action Memory Routine := do
  let symbols := Memory.globalSymbol (← get).addresses
  let id ← Action.at p.pos (lease p.target)
  fun memory =>
    match p.overwrite symbols { lease := id, memory } with
    | .ok routine h => .ok routine h.memory
    | .error failure h => .error failure h.memory

end Patch

/-- A memory together with the routines that patches have put there. -/
structure Patched where
  memory : Memory
  done : Array Routine := #[]
  deriving Repr

namespace Patched

/-- Applies one patch more. -/
def apply (p : Patch) : Action Patched Unit := fun s =>
  match p.apply s.memory with
  | .ok routine memory => .ok () { memory, done := s.done.push routine }
  | .error failure memory => .error failure { s with memory }

/-- Applies patches in their order, up to the first that fails. -/
def applyAll : List Patch → Action Patched Unit
  | [] => pure ()
  | p :: rest => do
    apply p
    applyAll rest

end Patched

end CellMachine
