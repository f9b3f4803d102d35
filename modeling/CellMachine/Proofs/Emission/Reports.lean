import CellMachine.Emission.Context
import CellMachine.Proofs.Operand.Reports

/-!
# What an emission reports about labels

An emission blames the name of a label in two cases only: a name that is to be defined is none, or
an operand uses a label without a name. Its region never does; that is asked of the region here, and
shown for each kind of region where it is used.

* `Region.Unblaming` — a region that never blames the name of a label.
* `Emission.emit_unblaming`, `Emission.defineLabel_unblaming`, `Emission.finalize_unblaming`,
  `Emission.discard_unblaming` — **the calls to an emission**, if the labels in them have names.
-/

namespace CellMachine

open CellMachine.Action

/-- A region that never blames the name of a label. -/
structure Region.Unblaming (ρ : Type) [Region ρ] : Prop where
  store : ∀ (offset : Int) (v : Cell), (Region.store offset v : Action ρ Unit).Unblaming
  attest : (Region.attest : Action ρ Unit).Unblaming
  sealUp : ∀ length : Int, (Region.sealUp length : Action ρ Unit).Unblaming
  poison : (Region.poison : Action ρ Unit).Unblaming

namespace Emission

variable {ρ : Type}

/-- What is done to the region is blamed as the region blames it. -/
theorem onRegion_unblaming {α : Type} {report : Failure → Failure} {x : Action ρ α}
    (hx : x.Unblaming) (hreport : ∀ cause, (report cause).blamesLabel = cause.blamesLabel) :
    (onRegion report x).Unblaming := by
  intro e failure e' h
  unfold onRegion at h
  split at h
  · cases h
  · next cause _ hcause =>
    cases h
    exact (hreport cause).trans (hx _ cause _ hcause)

/-- An emission that is not open is reported as such. -/
theorem checkOpen_unblaming : (checkOpen : Action (Emission ρ) Unit).Unblaming := by
  intro e failure e' h
  unfold checkOpen at h
  split at h
  · cases h
  · cases h
    rfl

/-- Looking at the context is no failure. -/
theorem getContext_unblaming : (getContext : Action (Emission ρ) Context).Unblaming :=
  .of_ok fun e => ⟨e.context, e, rfl⟩

/-- A use of a label is noted without a failure. -/
theorem reference_unblaming (name : String) (site : Nat) (rule : PatchRule) :
    (reference name site rule : Action (Emission ρ) Cell).Unblaming :=
  .of_ok fun _ => ⟨_, _, rfl⟩

variable [Region ρ] (hρ : Region.Unblaming ρ)

include hρ

/-- A cell that is refused. -/
theorem store_unblaming (offset : Nat) (v : Cell) :
    (store offset v : Action (Emission ρ) Unit).Unblaming :=
  onRegion_unblaming (hρ.store offset v) fun cause => by simp [Failure.blamesLabel, Failure.kinds]

/-- Operand cells that are refused. -/
theorem writeOperands_unblaming : (encs : List Encoded) → ∀ offset : Nat,
    (writeOperands offset encs : Action (Emission ρ) Unit).Unblaming
  | [], _ => .pure ()
  | .cell v :: rest, offset =>
    .bind (store_unblaming hρ offset v) fun _ => writeOperands_unblaming rest (offset + 1)
  | .label name rule :: rest, offset =>
    .bind (reference_unblaming name offset rule) fun v =>
      .bind (store_unblaming hρ offset v) fun _ => writeOperands_unblaming rest (offset + 1)

/-- An instruction whose labels have names. -/
theorem emitOp_unblaming {operands : List Operand} (hnamed : LabelsNamed operands)
    (symbols? : Option SymbolTable) (op : Op) :
    (emitOp symbols? op operands : Action (Emission ρ) Unit).Unblaming :=
  .bind checkOpen_unblaming fun _ => .bind getContext_unblaming fun _ =>
    .ofExcept_bind
      ((Resolver.resolveAll_reports _ op operands).mono fun _ h =>
        h.blamesLabel fun hbad => hbad hnamed) fun cells _ =>
      .refuse rfl <| .bind (store_unblaming hρ _ _) fun _ =>
        .bind (writeOperands_unblaming hρ cells _) fun _ => .modify _

/-- **The instruction of a mnemonic** whose labels have names. -/
theorem emit_unblaming {operands : List Operand} (hnamed : LabelsNamed operands)
    (symbols? : Option SymbolTable) (mnemonic : String) :
    (emit symbols? mnemonic operands : Action (Emission ρ) Unit).Unblaming :=
  .bind checkOpen_unblaming fun _ => .bind getContext_unblaming fun _ =>
    .ofExcept_bind
      ((Resolver.chooseOp_reports _ mnemonic operands).mono fun _ h => h.blamesLabel not_false)
      fun op _ => emitOp_unblaming hρ hnamed symbols? op

/-- The cells that waited for a label. -/
theorem writeSites_unblaming (labels : LabelTable) (target : Nat) : (sites : List Site) →
    (writeSites labels target sites : Action (Emission ρ) Unit).Unblaming
  | [] => .pure ()
  | _ :: rest =>
    .bind (store_unblaming hρ _ _) fun _ => writeSites_unblaming labels target rest

/-- **The definition of a label** that has a name. -/
theorem defineLabel_unblaming {name : String} (hname : Text.isName name = true) :
    (defineLabel name : Action (Emission ρ) Unit).Unblaming := by
  unfold defineLabel
  refine .bind checkOpen_unblaming fun _ => ?_
  rw [if_neg (by simp [hname])]
  refine .bind getContext_unblaming fun c => ?_
  split
  · exact .throw rfl
  · exact .bind (.modify _) fun _ => .bind (writeSites_unblaming hρ _ _ _) fun _ => .modify _

/-- **The end of an emission.** -/
theorem finalize_unblaming : (finalize : Action (Emission ρ) Routine).Unblaming :=
  .bind checkOpen_unblaming fun _ => .bind getContext_unblaming fun _ =>
    .refuse rfl <| .bind (onRegion_unblaming (hρ.sealUp _) fun _ => rfl) fun _ =>
      .bind (.modify _) fun _ => .bind .get fun _ => .pure _

/-- Traps that are refused. -/
theorem fillTraps_unblaming : (count : Nat) → ∀ offset : Nat,
    (fillTraps count offset : Action (Emission ρ) Unit).Unblaming
  | 0, _ => .pure ()
  | count + 1, offset =>
    .bind
      (onRegion_unblaming (hρ.store offset Op.trap.cell) fun _ => by
        simp [Failure.blamesLabel, Failure.kinds])
      fun _ => fillTraps_unblaming count (offset + 1)

/-- **An emission that is given up.** -/
theorem discard_unblaming : (discard : Action (Emission ρ) Unit).Unblaming := by
  refine .bind getContext_unblaming fun c => ?_
  split
  · exact .pure ()
  · exact .throw rfl
  · exact .bind (fillTraps_unblaming hρ _ 0) fun _ =>
      .bind (onRegion_unblaming hρ.poison fun _ => rfl) fun _ => .modify _

end Emission

end CellMachine
