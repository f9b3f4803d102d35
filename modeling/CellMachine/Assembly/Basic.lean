import CellMachine.Program.Block
import CellMachine.Source.Argument
import CellMachine.Source.Parse

/-!
# Assembling a source

A source is assembled statement by statement into a program, which is linked at the end.

    .data N                  the size of the data segment
    .global name [, init]    a global variable
    .routine name [, cells]  starts a routine, padded to a number of cells
    .local name, offset      a local of the routine, at a frame offset
    .end                     ends the routine
    .if c  .elseif c  .else  .endif

A condition is a number or the initial contents of a global, perhaps after `!`. What stands in a
branch not selected is left out.
-/

namespace CellMachine

/-- The choices for an assembly. -/
structure AssemblyOptions where
  /-- The address of the first data cell. -/
  dataBase : Addr := 0
  /-- The number of data cells, if it is positive and the source does not state it. -/
  dataCells : Int := 0
  /-- The greatest number of cells of a routine, if it is positive. -/
  blockCells : Int := 0
  deriving Repr

/-- An assembly under way. -/
structure Assembler where
  blockCells : Int
  program : Program
  /-- The block of the current routine. -/
  block? : Option Block := none
  /-- The name of the current routine. -/
  routine : String := ""
  /-- The number of cells that the current routine is padded to. -/
  reserve : Int := 0
  deriving Repr

/-! ### The size of the data segment -/

/-- The size that a statement of the data segment's size states. -/
def statedSize (st : Statement) : Except Failure Int :=
  match st.args with
  | [arg] =>
    match parseCell arg.text.read with
    | .ok n => if n < 0 then .error (.badArguments (.dataSize arg.text.read)) else .ok n.toInt
    | .error _ => .error (.badArguments (.dataSize arg.text.read))
  | _ => .error (.badArguments .dataCount)

/-- The size stated last, and the number of globals. `late` says that a global or a routine has
come before, after which no size may be stated. -/
def scanSizes : (late : Bool) → (size? : Option Int) → (globals : Nat) → List Statement →
    Except Failure (Option Int × Nat)
  | _, size?, globals, [] => .ok (size?, globals)
  | late, size?, globals, st :: rest =>
    match st.op? with
    | some ".data" =>
      if late then .error (.atLine st.pos (.misplaced .lateData))
      else
        match statedSize st with
        | .error cause => .error (.atLine st.pos cause)
        | .ok size => scanSizes late (some size) globals rest
    | some ".global" => scanSizes true size? (globals + 1) rest
    | some ".routine" => scanSizes true size? globals rest
    | _ => scanSizes late size? globals rest

/-- The number of data cells: what the source states, else what the options say, else one for each
global. -/
def dataSize (statements : List Statement) (fallback : Int) : Except Failure Int := do
  let (size?, globals) ← scanSizes false none 0 statements
  match size? with
  | some size => return size
  | none => return if 0 < fallback then fallback else globals

namespace Assembler

/-- Does something to the program. -/
def onProgram {α : Type} (action : Action Program α) : Action Assembler α := fun a =>
  match action a.program with
  | .ok v program => .ok v { a with program }
  | .error failure program => .error failure { a with program }

/-- Does something to the block of the current routine, in its program. It fails with `outside` if
there is no routine. -/
def onBlock {α : Type} (outside : Failure) (action : Action Worksite α) : Action Assembler α :=
  fun a =>
    match a.block? with
    | none => .error outside a
    | some block =>
      match action ⟨block, a.program⟩ with
      | .ok v w => .ok v { a with block? := some w.block, program := w.program }
      | .error failure w =>
        .error failure { a with block? := some w.block, program := w.program }

/-- Fails unless a directive stands in a routine and has `count` arguments. -/
def needRoutine (op : String) (st : Statement) (count : Nat) : Action Assembler Unit := do
  let a ← get
  if a.block?.isNone then throw (.misplaced (.outsideRoutine op))
  Action.ofExcept (st.checkCount count count)

/-! ### Directives -/

/-- The number in the second argument, if there is one. -/
def secondNumber (st : Statement) : Except Failure Cell :=
  match st.args with
  | [_, arg] => arg.number
  | _ => .ok 0

/-- The name in the first argument. -/
def firstName (st : Statement) : Except Failure String :=
  match st.args with
  | arg :: _ => arg.name
  | [] => .error (.badArguments (.notName []))

/-- Declares a global. -/
def global (st : Statement) : Action Assembler Unit := do
  let a ← get
  if a.block?.isSome then throw (.misplaced (.globalInside a.routine))
  Action.ofExcept (st.checkCount 1 2)
  let name ← Action.ofExcept (firstName st)
  let init ← Action.ofExcept (secondNumber st)
  let _ ← onProgram (Program.declareGlobal name init)

/-- Starts a routine and opens its block. -/
def beginRoutine (st : Statement) : Action Assembler Unit := do
  let a ← get
  if a.block?.isSome then throw (.misplaced (.routineInside a.routine))
  Action.ofExcept (st.checkCount 1 2)
  let name ← Action.ofExcept (firstName st)
  let reserve ← Action.ofExcept (secondNumber st)
  onProgram (Program.beginRoutine name)
  let block ← onProgram (Program.openBlock a.blockCells)
  modify fun a => { a with block? := some block, routine := name, reserve := reserve.toInt }

/-- Declares a local of the current routine. -/
def declareLocal (st : Statement) : Action Assembler Unit := do
  needRoutine ".local" st 2
  let name ← Action.ofExcept (firstName st)
  let offset ← Action.ofExcept (secondNumber st)
  onProgram (Program.declareLocal name offset)

/-- Closes the block of the current routine and ends the routine. -/
def endRoutine (st : Statement) : Action Assembler Unit := do
  needRoutine ".end" st 0
  let a ← get
  let _ ← fun s =>
    match onBlock (.misplaced (.outsideRoutine ".end")) Worksite.close s with
    | .ok routine s => .ok routine s
    | .error cause s => .error (.inRoutine a.routine cause) s
  modify fun a => { a with block? := none }
  let _ ← onProgram (Program.endRoutine a.reserve)

/-- The truth of a condition. -/
def condition (a : Assembler) (arg : Arg) : Except Failure Bool := do
  let (negated, text) := match arg.text with
    | .char '!' :: rest => (true, RawText.read rest)
    | text => (false, text.read)
  let value ← match ← parseOperand text with
    | .immediate value => Except.ok value
    | .contents (.named name) =>
      match a.program.scope.symbol? name with
      | none => .error (.unknownSymbol name)
      | some symbol =>
        match symbol.contents? with
        | none => .error (.badArguments (.noContents name))
        | some value => .ok value
    | _ => .error (.badArguments (.condition arg.text.read))
  return (value != 0) != negated

/-- The truth of the condition in the only argument of a directive. -/
def onlyCondition (op : String) (st : Statement) : Action Assembler Bool := do
  needRoutine op st 1
  let a ← get
  match st.args with
  | [arg] => Action.ofExcept (a.condition arg)
  | _ => throw (.badArguments (.condition ""))

/-- Carries a directive out. -/
def directive (op : String) (st : Statement) : Action Assembler Unit :=
  let outside := Failure.misplaced (.outsideRoutine op)
  match op with
  | ".data" => pure ()
  | ".global" => global st
  | ".routine" => beginRoutine st
  | ".local" => declareLocal st
  | ".end" => endRoutine st
  | ".if" => do
    let cond ← onlyCondition op st
    onBlock outside (Worksite.onBlock (modify fun b => b.openIf cond))
  | ".elseif" => do
    let cond ← onlyCondition op st
    onBlock outside (Worksite.onBlock (Block.elseIf cond))
  | ".else" => do
    needRoutine op st 0
    onBlock outside (Worksite.onBlock Block.elseLast)
  | ".endif" => do
    needRoutine op st 0
    onBlock outside (Worksite.onBlock Block.endIf)
  | ".patch" | ".endpatch" => throw (.misplaced (.patchDirective op))
  | _ => throw (.unknownDirective op)

/-! ### Statements -/

/-- Defines the label of a statement. -/
def label (st : Statement) : Action Assembler Unit :=
  match st.label? with
  | none => pure ()
  | some name => onBlock (.misplaced (.labelOutside name)) (Worksite.label name)

/-- Carries the instruction or directive of a statement out. -/
def operation (st : Statement) : Action Assembler Unit :=
  match st.op? with
  | none => pure ()
  | some op =>
    if st.isDirective then directive op st
    else do
      let outside := Failure.misplaced (.outsideRoutine op)
      let a ← get
      if a.block?.isNone then throw outside
      let operands ← Action.ofExcept st.operands
      onBlock outside (Worksite.emit op operands)

/-- Assembles a statement; a failure is reported at its place. -/
def statement (st : Statement) : Action Assembler Unit :=
  Action.at st.pos do
    label st
    operation st

/-- Assembles statements in their order. -/
def statements : List Statement → Action Assembler Unit
  | [] => pure ()
  | st :: rest => do
    statement st
    statements rest

end Assembler

/-- The image of a list of statements. -/
def assembleStatements (sts : List Statement) (options : AssemblyOptions) :
    Except Failure Image := do
  let cells ← dataSize sts options.dataCells
  let program ← Program.new options.dataBase cells
  match Assembler.statements sts { blockCells := options.blockCells, program } with
  | .error failure _ => .error failure
  | .ok () a =>
    if a.block?.isSome then .error (.misplaced (.noEnd a.routine)) else a.program.link

/-- The image of a source. -/
def assemble (source : RawText) (options : AssemblyOptions) : Except Failure Image := do
  assembleStatements (← parseSource source) options

end CellMachine
