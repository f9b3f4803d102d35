import CellMachine.Assembly.Basic
import CellMachine.Proofs.Action

/-!
# Places in a source are for reports only

Assembling looks at the label, the operation and the texts of the arguments of a statement. The
places of a statement and of its arguments play a part in the reports of failures and in nothing
else; so statements that differ in their places alone give the same image, or none of them does.

* `Statement.unplaced` — a statement without its places.
* `Assembler.operation_unplaced` — an operation does the same without its places.
* `assembleStatements_unplaced` — **so do all statements together**, up to the report of a failure.
-/

namespace CellMachine

/-- An argument without its place. -/
def Arg.unplaced (arg : Arg) : Arg := { arg with pos := default }

/-- A statement without its places. -/
def Statement.unplaced (st : Statement) : Statement :=
  { st with pos := default, args := st.args.map Arg.unplaced }

namespace Statement

/-- Statements that say the same are the same without their places. -/
theorem unplaced_eq {st st' : Statement} (hlabel : st.label? = st'.label?)
    (hop : st.op? = st'.op?) (hargs : st.args.map Arg.text = st'.args.map Arg.text) :
    st.unplaced = st'.unplaced := by
  have htexts : ∀ args : List Arg, args.map Arg.unplaced =
      (args.map Arg.text).map fun text => ⟨default, text⟩ := by
    intro args
    rw [List.map_map]
    rfl
  unfold unplaced
  rw [hlabel, hop, htexts, htexts, hargs]

/-- The number of arguments is checked without their places. -/
theorem checkCount_unplaced (st : Statement) (least most : Nat) :
    st.unplaced.checkCount least most = st.checkCount least most := by
  simp [checkCount, unplaced]

/-- Operands are read without their places. -/
theorem operands_unplaced (st : Statement) : st.unplaced.operands = st.operands := by
  simp [operands, unplaced, Arg.unplaced, Function.comp_def]

end Statement

/-! ### Statements one by one -/

namespace Assembler

variable (st : Statement)

/-- Names are read without their places. -/
theorem firstName_unplaced : firstName st.unplaced = firstName st := by
  obtain ⟨pos, label?, op?, args⟩ := st
  cases args with
  | nil => rfl
  | cons arg args => rfl

/-- Numbers are read without their places. -/
theorem secondNumber_unplaced : secondNumber st.unplaced = secondNumber st := by
  obtain ⟨pos, label?, op?, args⟩ := st
  match args with
  | [] | [_] | [_, _] | _ :: _ :: _ :: _ => rfl

/-- Directives are checked without their places. -/
theorem needRoutine_unplaced (op : String) (count : Nat) :
    needRoutine op st.unplaced count = needRoutine op st count := by
  unfold needRoutine
  rw [st.checkCount_unplaced]

/-- Conditions are read without their places. -/
theorem onlyCondition_unplaced (op : String) :
    onlyCondition op st.unplaced = onlyCondition op st := by
  unfold onlyCondition
  rw [needRoutine_unplaced]
  obtain ⟨pos, label?, op?, args⟩ := st
  match args with
  | [] | [_] | _ :: _ :: _ => rfl

/-- A directive does the same without its places. -/
theorem directive_unplaced (op : String) : directive op st.unplaced = directive op st := by
  unfold directive global beginRoutine declareLocal endRoutine
  simp only [needRoutine_unplaced, onlyCondition_unplaced, firstName_unplaced,
    secondNumber_unplaced, st.checkCount_unplaced]

/-- **An operation does the same without its places.** -/
theorem operation_unplaced : operation st.unplaced = operation st := by
  have hop : st.unplaced.op? = st.op? := rfl
  have hdirective : st.unplaced.isDirective = st.isDirective := rfl
  unfold operation
  rw [hop, hdirective, st.operands_unplaced]
  cases st.op? with
  | none => rfl
  | some op => simp only [directive_unplaced]

/-! ### Statements one after the other -/

/-- A report at a place changes nothing but the failure. -/
theorem result?_at {σ α : Type} (pos : Position) (x : Action σ α) (s : σ) :
    (Action.at pos x).result? s = x.result? s := by
  unfold Action.result? Action.at
  cases x s with
  | ok a s' => rfl
  | error cause s' => rfl

/-- Statements do the same without their places. -/
theorem statements_unplaced (sts : List Statement) (a : Assembler) :
    (statements (sts.map Statement.unplaced)).result? a = (statements sts).result? a := by
  induction sts generalizing a with
  | nil => rfl
  | cons st rest ih =>
    have hlabel : label st.unplaced = label st := rfl
    simp only [List.map_cons, statements, statement, Action.result?_bind, result?_at, hlabel,
      operation_unplaced, ih]

end Assembler

/-! ### Whole sources -/

/-- The stated size of the data segment is read without places. -/
theorem statedSize_unplaced (st : Statement) : statedSize st.unplaced = statedSize st := by
  obtain ⟨pos, label?, op?, args⟩ := st
  match args with
  | [] | [_] | _ :: _ :: _ => rfl

/-- The size of the data segment is found without places. -/
theorem scanSizes_unplaced (sts : List Statement) (late : Bool) (size? : Option Int)
    (globals : Nat) :
    (scanSizes late size? globals (sts.map Statement.unplaced)).toOption =
      (scanSizes late size? globals sts).toOption := by
  induction sts generalizing late size? globals with
  | nil => rfl
  | cons st rest ih =>
    have hop : st.unplaced.op? = st.op? := rfl
    simp only [List.map_cons, scanSizes, hop, statedSize_unplaced]
    split
    · split
      · rfl
      · cases statedSize st with
        | error cause => rfl
        | ok size => exact ih late (some size) globals
    · exact ih true size? (globals + 1)
    · exact ih true size? globals
    · exact ih late size? globals

/-- What follows a result sees only whether there is one. -/
theorem toOption_bind {ε α β : Type} (x : Except ε α) (f : α → Except ε β) :
    (x >>= f).toOption = x.toOption.bind fun a => (f a).toOption := by
  cases x with
  | ok a => rfl
  | error e => rfl

/-- **Statements give the same image without their places**, or give none. -/
theorem assembleStatements_unplaced (sts : List Statement) (options : AssemblyOptions) :
    (assembleStatements (sts.map Statement.unplaced) options).toOption =
      (assembleStatements sts options).toOption := by
  unfold assembleStatements dataSize
  simp only [toOption_bind, scanSizes_unplaced]
  refine Option.bind_congr fun cells _ => Option.bind_congr fun program _ => ?_
  have hstatements := Assembler.statements_unplaced sts
    { blockCells := options.blockCells, program }
  unfold Action.result? at hstatements
  cases hx : Assembler.statements (sts.map Statement.unplaced)
      { blockCells := options.blockCells, program } with
  | ok _ a =>
    cases hy : Assembler.statements sts { blockCells := options.blockCells, program } with
    | ok _ a' =>
      rw [hx, hy] at hstatements
      cases hstatements
      rfl
    | error failure a' =>
      rw [hx, hy] at hstatements
      cases hstatements
  | error failure a =>
    cases hy : Assembler.statements sts { blockCells := options.blockCells, program } with
    | ok _ a' =>
      rw [hx, hy] at hstatements
      cases hstatements
    | error failure' a' => rfl

end CellMachine
