import CellMachine.Assembly.Basic
import CellMachine.Proofs.Emission.Reports

/-!
# What an assembly reports about labels

Statements whose labels have names are never refused for the name of a label. An assembly can fail
in the program, in the block of the current routine, in a directive and in the link at the end; none
of these looks at the name of a label but the block, and it looks at it as every emission does.

* `Placement.unblaming` — the segment of a block never blames the name of a label.
* `Worksite.emit_unblaming`, `Worksite.label_unblaming`, `Worksite.close_unblaming` — the calls to a
  block.
* `Assembler.directive_unblaming`, `Assembler.statement_unblaming` — a statement.
* `assembleStatements_unblaming` — **statements whose labels have names.**
-/

namespace CellMachine

open CellMachine.Action

/-! ### Programs -/

/-- A buffer that cannot be made. -/
theorem Buffer.new_unblaming (base : Addr) (capacity : Int) :
    Unblaming (Buffer.new base capacity) := by
  refine .map ?_ _
  exact .ite (fun _ => .ok _) fun _ => .error rfl

namespace Program

/-- A global that cannot be declared. -/
theorem declareGlobal_unblaming (name : String) (init : Cell) :
    (declareGlobal name init).Unblaming := by
  intro p failure p' h
  unfold declareGlobal at h
  dsimp only at h
  split at h
  · cases h
    rfl
  · split at h
    · cases h
    · next hscope =>
      cases h
      unfold Scope.declareGlobal at hscope
      split at hscope <;> cases hscope
      rfl

/-- A local that cannot be declared. -/
theorem declareLocal_unblaming (name : String) (offset : Cell) :
    (declareLocal name offset).Unblaming := by
  intro p failure p' h
  unfold declareLocal at h
  split at h
  · cases h
  · next hscope =>
    cases h
    unfold Scope.declareLocal at hscope
    split at hscope
    · cases hscope
      rfl
    · split at hscope <;> cases hscope
      rfl

/-- A routine that cannot start. -/
theorem beginRoutine_unblaming (name : String) : (beginRoutine name).Unblaming := by
  intro p failure p' h
  unfold beginRoutine at h
  split at h
  · cases h
    rfl
  · split at h <;> cases h
    rfl

/-- A block that cannot be opened. -/
theorem openBlock_unblaming (capacity : Int) : (openBlock capacity).Unblaming := by
  intro p failure p' h
  unfold openBlock at h
  split at h
  · cases h
    rfl
  · split at h
    · cases h
      rfl
    · split at h
      · next hbuffer =>
        cases h
        exact Buffer.new_unblaming _ _ _ hbuffer
      · cases h

/-- A routine that cannot end. -/
theorem endRoutine_unblaming (reserve : Int) : (endRoutine reserve).Unblaming := by
  intro p failure p' h
  unfold endRoutine at h
  split at h
  · cases h
    rfl
  · split at h
    · cases h
      rfl
    · dsimp only at h
      split at h
      · cases h
        rfl
      · split at h
        · cases h
        · next hscope =>
          cases h
          unfold Scope.pop at hscope
          split at hscope <;> cases hscope
          rfl

/-- A program that cannot be linked. -/
theorem link_unblaming (p : Program) : Unblaming p.link := by
  unfold link
  split
  · exact .error rfl
  · exact .ok _

end Program

/-! ### Blocks -/

namespace Placement

/-- What is done to the buffer of a segment. -/
theorem onBuffer_unblaming {α : Type} {x : Action Buffer α} (hx : x.Unblaming) :
    (onBuffer x).Unblaming := by
  intro s failure s' h
  unfold onBuffer at h
  split at h
  · cases h
  · next hbuffer =>
    cases h
    exact hx _ failure _ hbuffer

/-- A buffer that does not accept writes says so. -/
theorem refusal?_unblaming {b : Buffer} {failure : Failure} (h : b.refusal? = some failure) :
    failure.blamesLabel = false := by
  unfold Buffer.refusal? at h
  split at h
  · cases h
    rfl
  · split at h <;> cases h
    rfl

/-- A segment that cannot be appended to its program. -/
theorem sealUp_unblaming (length : Int) : (sealUp length).Unblaming := by
  refine .bind .get fun s => .refuse rfl ?_
  refine .bind (onBuffer_unblaming ?_) fun _ => .bind .get fun s => .bind (.ofExcept ?_) fun _ => ?_
  · intro b failure b' h
    unfold Buffer.sealUp at h
    split at h <;> cases h
    rfl
  · unfold Buffer.contents
    split
    · exact .ok _
    · exact .ite (fun _ => .ok _) fun _ => .error rfl
  · exact .of_ok fun _ => ⟨_, _, rfl⟩

/-- **The segment of a block never blames the name of a label.** -/
theorem unblaming : Region.Unblaming Placement where
  store offset v := onBuffer_unblaming <| by
    intro b failure b' h
    unfold Buffer.store at h
    split at h
    · next hrefused =>
      cases h
      exact refusal?_unblaming hrefused
    · split at h <;> cases h
      rfl
  attest := onBuffer_unblaming <| by
    intro b failure b' h
    unfold Buffer.attest at h
    split at h
    · next hrefused =>
      cases h
      exact refusal?_unblaming hrefused
    · split at h <;> cases h
      rfl
  sealUp := sealUp_unblaming
  poison := onBuffer_unblaming <| by
    intro b failure b' h
    unfold Buffer.poison at h
    split at h <;> cases h
    rfl

end Placement

namespace Worksite

/-- What is done to the block alone. -/
theorem onBlock_unblaming {α : Type} {x : Action Block α} (hx : x.Unblaming) :
    (onBlock x).Unblaming := by
  intro w failure w' h
  unfold onBlock at h
  split at h
  · cases h
  · next hblock =>
    cases h
    exact hx _ failure _ hblock

/-- What is done to the emission of the block. -/
theorem onEmission_unblaming {α : Type} {x : Action (Emission Placement) α} (hx : x.Unblaming) :
    (onEmission x).Unblaming := by
  intro w failure w' h
  unfold onEmission at h
  split at h
  · cases h
  · next hemission =>
    cases h
    exact hx _ failure _ hemission

/-- An instruction whose labels have names. -/
theorem emit_unblaming {operands : List Operand} (hnamed : LabelsNamed operands)
    (mnemonic : String) : (emit mnemonic operands).Unblaming :=
  .bind .get fun _ =>
    .ite (onEmission_unblaming (Emission.emit_unblaming Placement.unblaming hnamed _ mnemonic))
      (onBlock_unblaming (.modify _))

/-- A label that has a name. -/
theorem label_unblaming {name : String} (hname : Text.isName name = true) :
    (label name).Unblaming :=
  .bind .get fun _ =>
    .ite (onEmission_unblaming (Emission.defineLabel_unblaming Placement.unblaming hname)) (.pure _)

/-- The end of a block. -/
theorem close_unblaming : close.Unblaming :=
  .bind .get fun _ => .refuse rfl <|
    .bind (onEmission_unblaming (Emission.finalize_unblaming Placement.unblaming)) fun _ =>
      .bind (.modify _) fun _ => .pure _

end Worksite

/-- A branch that is out of place. -/
theorem Block.elseIf_unblaming (cond : Bool) : (Block.elseIf cond).Unblaming := by
  intro b failure b' h
  unfold Block.elseIf at h
  split at h
  · cases h
    rfl
  · split at h <;> cases h
    rfl

/-- A last branch that is out of place. -/
theorem Block.elseLast_unblaming : Block.elseLast.Unblaming := by
  intro b failure b' h
  unfold Block.elseLast at h
  split at h
  · cases h
    rfl
  · split at h <;> cases h
    rfl

/-- An end of conditionals that is out of place. -/
theorem Block.endIf_unblaming : Block.endIf.Unblaming := by
  intro b failure b' h
  unfold Block.endIf at h
  split at h <;> cases h
  rfl

/-! ### Statements -/

namespace Assembler

/-- What is done to the program. -/
theorem onProgram_unblaming {α : Type} {x : Action Program α} (hx : x.Unblaming) :
    (onProgram x).Unblaming := by
  intro a failure a' h
  unfold onProgram at h
  split at h
  · cases h
  · next hprogram =>
    cases h
    exact hx _ failure _ hprogram

/-- What is done to the block of the current routine. -/
theorem onBlock_unblaming {α : Type} {outside : Failure} {x : Action Worksite α}
    (houtside : outside.blamesLabel = false) (hx : x.Unblaming) :
    (onBlock outside x).Unblaming := by
  intro a failure a' h
  unfold onBlock at h
  split at h
  · cases h
    exact houtside
  · split at h
    · cases h
    · next hblock =>
      cases h
      exact hx _ failure _ hblock

variable {st : Statement}

/-- A number of arguments that does not fit. -/
theorem checkCount_unblaming (st : Statement) (least most : Nat) :
    Unblaming (st.checkCount least most) :=
  .ite (fun _ => .error rfl) fun _ => .ok ()

/-- A directive that is out of place or has too many arguments or too few. -/
theorem needRoutine_unblaming (op : String) (st : Statement) (count : Nat) :
    (needRoutine op st count).Unblaming :=
  .bind .get fun _ => .refuse rfl (.ofExcept (checkCount_unblaming st count count))

/-- A first argument that is no name. -/
theorem firstName_unblaming (st : Statement) : Unblaming (firstName st) := by
  unfold firstName
  split
  · exact Arg.name_unblaming _
  · exact .error rfl

/-- A second argument that is no number. -/
theorem secondNumber_unblaming (h : st.WellNamed) : Unblaming (secondNumber st) := by
  unfold secondNumber
  split
  · next arg hargs => exact Arg.number_unblaming (h.args arg (by simp [hargs]))
  · exact .ok 0

/-- A condition that cannot be told. -/
theorem condition_unblaming (h : st.WellNamed) {arg : Arg} (harg : arg ∈ st.args) (a : Assembler) :
    Unblaming (a.condition arg) := by
  unfold condition
  split
  next negated text htext =>
  have hbad : ¬BadLabel text := by
    split at htext
    · next hnegated =>
      cases htext
      exact h.negated arg harg _ hnegated
    · cases htext
      exact h.args arg harg
  refine .bind ((parseOperand_reports text).mono fun _ hreport => hreport.blamesLabel hbad)
    fun operand _ => ?_
  dsimp only
  split
  · exact .ok _
  · split
    · exact .error rfl
    · split
      · exact .error rfl
      · exact .ok _
  · exact .error rfl

/-- The only argument of a directive, as a condition. -/
theorem onlyCondition_unblaming (h : st.WellNamed) (op : String) :
    (onlyCondition op st).Unblaming := by
  refine .bind (needRoutine_unblaming op st 1) fun _ => .bind .get fun a => ?_
  split
  · next arg hargs => exact .ofExcept (condition_unblaming h (by simp [hargs]) a)
  · exact .throw rfl

/-- The end of a routine. -/
theorem endRoutine_unblaming (st : Statement) : (endRoutine st).Unblaming := by
  refine .bind (needRoutine_unblaming ".end" st 0) fun _ => .bind .get fun a => .bind ?_ fun _ =>
    .bind (.modify _) fun _ => .bind (onProgram_unblaming (Program.endRoutine_unblaming _)) fun _ =>
      .pure _
  intro s failure s' hrun
  dsimp only at hrun
  split at hrun
  · cases hrun
  · next cause _ hclose =>
    cases hrun
    exact onBlock_unblaming rfl Worksite.close_unblaming s cause _ hclose

/-- **A directive** with arguments that use no label without a name. -/
theorem directive_unblaming (h : st.WellNamed) (op : String) : (directive op st).Unblaming := by
  unfold directive
  dsimp only
  split
  · exact .pure ()
  · refine .bind .get fun _ => .refuse rfl <|
      .bind (.ofExcept (checkCount_unblaming st 1 2)) fun _ =>
      .bind (.ofExcept (firstName_unblaming st)) fun _ =>
        .bind (.ofExcept (secondNumber_unblaming h)) fun _ =>
          .bind (onProgram_unblaming (Program.declareGlobal_unblaming _ _)) fun _ => .pure _
  · refine .bind .get fun _ => .refuse rfl <|
      .bind (.ofExcept (checkCount_unblaming st 1 2)) fun _ =>
      .bind (.ofExcept (firstName_unblaming st)) fun _ =>
        .bind (.ofExcept (secondNumber_unblaming h)) fun _ =>
          .bind (onProgram_unblaming (Program.beginRoutine_unblaming _)) fun _ =>
            .bind (onProgram_unblaming (Program.openBlock_unblaming _)) fun _ => .modify _
  · refine .bind (needRoutine_unblaming ".local" st 2) fun _ =>
      .bind (.ofExcept (firstName_unblaming st)) fun _ =>
        .bind (.ofExcept (secondNumber_unblaming h)) fun _ =>
          onProgram_unblaming (Program.declareLocal_unblaming _ _)
  · exact endRoutine_unblaming st
  · exact .bind (onlyCondition_unblaming h _) fun _ =>
      onBlock_unblaming rfl (Worksite.onBlock_unblaming (.modify _))
  · exact .bind (onlyCondition_unblaming h _) fun _ =>
      onBlock_unblaming rfl (Worksite.onBlock_unblaming (Block.elseIf_unblaming _))
  · exact .bind (needRoutine_unblaming _ st 0) fun _ =>
      onBlock_unblaming rfl (Worksite.onBlock_unblaming Block.elseLast_unblaming)
  · exact .bind (needRoutine_unblaming _ st 0) fun _ =>
      onBlock_unblaming rfl (Worksite.onBlock_unblaming Block.endIf_unblaming)
  · exact .throw rfl
  · exact .throw rfl
  · exact .throw rfl

/-- A label that has a name. -/
theorem label_unblaming (h : st.WellNamed) : (label st).Unblaming := by
  unfold label
  cases hlabel : st.label? with
  | none => exact .pure ()
  | some name => exact onBlock_unblaming rfl (Worksite.label_unblaming (h.label name hlabel))

/-- An operation whose labels have names. -/
theorem operation_unblaming (h : st.WellNamed) : (operation st).Unblaming := by
  unfold operation
  cases st.op? with
  | none => exact .pure ()
  | some op =>
    exact .ite (directive_unblaming h op) <| .bind .get fun _ => .refuse rfl <|
      .ofExcept_bind h.operands fun _ hoperands => onBlock_unblaming rfl
        (Worksite.emit_unblaming (st.labelsNamed_of_operands hoperands) op)

/-- **A statement whose labels have names.** -/
theorem statement_unblaming (h : st.WellNamed) : (statement st).Unblaming :=
  .atPlace (.bind (label_unblaming h) fun _ => operation_unblaming h) (fun _ _ => id) st.pos

/-- Statements whose labels have names. -/
theorem statements_unblaming : (sts : List Statement) → (∀ st ∈ sts, st.WellNamed) →
    (statements sts).Unblaming
  | [], _ => .pure ()
  | st :: rest, h => .bind (statement_unblaming (h st (List.mem_cons_self ..))) fun _ =>
      statements_unblaming rest fun st' hst' => h st' (List.mem_cons_of_mem st hst')

end Assembler

/-! ### Whole sources -/

/-- A size of the data segment that is stated badly. -/
theorem statedSize_unblaming (st : Statement) : Unblaming (statedSize st) := by
  unfold statedSize
  split
  · split
    · exact .ite (fun _ => .error rfl) fun _ => .ok _
    · exact .error rfl
  · exact .error rfl

/-- The sizes of the data segment that a source states. -/
theorem scanSizes_unblaming (sts : List Statement) (late : Bool) (size? : Option Int)
    (globals : Nat) : Unblaming (scanSizes late size? globals sts) := by
  induction sts generalizing late size? globals with
  | nil => exact .ok _
  | cons st rest ih =>
    unfold scanSizes
    split
    · refine .ite (fun _ => .error rfl) fun _ => ?_
      split
      · next cause hsize =>
        have hcause : cause.blamesLabel = false := statedSize_unblaming st cause hsize
        exact .error hcause
      · exact ih late _ globals
    · exact ih true size? (globals + 1)
    · exact ih true size? globals
    · exact ih late size? globals

/-- **Statements whose labels have names** are never refused for the name of a label. -/
theorem assembleStatements_unblaming {sts : List Statement} (h : ∀ st ∈ sts, st.WellNamed)
    (options : AssemblyOptions) : Unblaming (assembleStatements sts options) := by
  refine .bind (.bind (scanSizes_unblaming sts false none 0) fun sizes _ => ?_) fun cells _ =>
    .bind ?_ fun program _ => ?_
  · split
    split
    · exact .ok _
    · exact .ok _
  · exact .ite (fun _ => .error rfl) fun _ => .ok _
  · split
    · next failure _ hstatements =>
      exact .error (Assembler.statements_unblaming sts h _ failure _ hstatements)
    · exact .ite (fun _ => .error rfl) fun _ => Program.link_unblaming _

end CellMachine
