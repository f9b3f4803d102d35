import CellMachine.Failure

/-!
# Linked images

An image is a program ready to be loaded at its base address: its cells, and the places of its
globals and routines. `Image.checkLayout` verifies that names are distinct, that everything lies
inside the image and that no two routines overlap; neighbours are compared after sorting the
routines by base. Nothing is known about how the sort treats routines of one base, so the sort is a
parameter (`BaseOrder`). All sums of addresses wrap around.
-/

namespace CellMachine

/-- The place of a global variable. -/
structure GlobalEntry where
  name : String
  addr : Addr
  deriving DecidableEq, Repr

/-- The place of a routine. The capacity counts the padding after the routine. -/
structure RoutineEntry where
  name : String
  base : Addr
  capacity : Int64
  deriving DecidableEq, Repr

/-- The address after the last cell of a routine. -/
def RoutineEntry.limit (r : RoutineEntry) : Addr := r.base + r.capacity

/-- A sort of routines by their bases. It need not keep the order of routines that share a base. -/
class BaseOrder where
  sort : List RoutineEntry → List RoutineEntry
  perm : ∀ routines, (sort routines).Perm routines
  sorted : ∀ routines, (sort routines).Pairwise fun a b => a.base ≤ b.base

/-- The sort that keeps the order of routines that share a base. -/
instance (priority := low) BaseOrder.stable : BaseOrder where
  sort routines := routines.mergeSort fun a b => a.base ≤ b.base
  perm routines := List.mergeSort_perm routines _
  sorted routines := by
    refine (List.pairwise_mergeSort ?_ ?_ routines).imp ?_
    · intro a b c hab hbc
      simp only [decide_eq_true_eq] at hab hbc ⊢
      exact Int64.le_trans hab hbc
    · intro a b
      simpa using Int64.le_total a.base b.base
    · intro a b hab
      simpa using hab

/-- A linked program. -/
structure Image where
  version : UInt16
  base : Addr
  /-- The cells; a list that is absent counts as empty but is told apart when it is written. -/
  cells? : Option (Array Cell)
  globals : List GlobalEntry
  routines : List RoutineEntry
  deriving DecidableEq, Repr

namespace Image

/-- The cells of the image. -/
def cells (img : Image) : Array Cell := img.cells?.getD #[]

/-- The address after the last cell. -/
def limit (img : Image) : Addr := img.base + Int64.ofNat img.cells.size

/-- The first fault among the globals; `seen` are the names before them. -/
def globalFault? (img : Image) : (seen : List String) → List GlobalEntry → Option LayoutFault
  | _, [] => none
  | seen, g :: rest =>
    if g.name ∈ seen then some (.globalTwice g.name)
    else if g.addr < img.base ∨ img.limit ≤ g.addr then some (.globalOutside g.name g.addr)
    else img.globalFault? (g.name :: seen) rest

/-- The first fault among the routines; `seen` are the names before them. -/
def routineFault? (img : Image) : (seen : List String) → List RoutineEntry → Option LayoutFault
  | _, [] => none
  | seen, r :: rest =>
    if r.name ∈ seen then some (.routineTwice r.name)
    else if r.capacity < 0 ∨ r.base < img.base ∨ img.limit < r.limit then
      some (.routineOutside r.name)
    else img.routineFault? (r.name :: seen) rest

/-- The first two neighbours that overlap. -/
def overlapFault? : List RoutineEntry → Option LayoutFault
  | a :: b :: rest =>
    if b.base < a.limit then some (.routinesOverlap a.name b.name) else overlapFault? (b :: rest)
  | _ => none

/-- The routines in the order of their bases. -/
def sortedRoutines [BaseOrder] (img : Image) : List RoutineEntry := BaseOrder.sort img.routines

/-- The first fault in the layout. -/
def layoutFault? [BaseOrder] (img : Image) : Option LayoutFault :=
  if img.base < 0 then some (.negativeBase img.base)
  else (img.globalFault? [] img.globals).or <|
    (img.routineFault? [] img.routines).or (overlapFault? img.sortedRoutines)

/-- Fails if there is a fault in the layout. -/
def checkLayout [BaseOrder] (img : Image) : Except Failure Unit :=
  match img.layoutFault? with
  | some fault => .error (.layout fault)
  | none => .ok ()

/-- The routine of a name. -/
def routine? (img : Image) (name : String) : Option RoutineEntry :=
  img.routines.find? fun r => r.name == name

/-- The global of a name. -/
def global? (img : Image) (name : String) : Option GlobalEntry :=
  img.globals.find? fun g => g.name == name

/-- The cells of a routine. It fails if the routine does not lie inside the image. -/
def entryCells (img : Image) (r : RoutineEntry) : Except Failure (Array Cell) :=
  let start := r.base - img.base
  let stop := start + r.capacity
  if 0 ≤ start ∧ start ≤ stop ∧ stop.toInt ≤ img.cells.size then
    .ok (img.cells.extract start.toInt.toNat stop.toInt.toNat)
  else .error .crash

/-- The cells of the routine of a name, if there is one. -/
def routineCells (img : Image) (name : String) : Except Failure (Option (Array Cell)) :=
  match img.routine? name with
  | none => .ok none
  | some r => (img.entryCells r).map some

end Image

end CellMachine
