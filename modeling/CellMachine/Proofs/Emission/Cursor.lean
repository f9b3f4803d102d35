import CellMachine.Proofs.Emission.Upkeep
import Mathlib.Algebra.GroupWithZero.Nat

/-!
# The cursor of an emission

The cursor of an emission says where the next instruction goes. It moves when an instruction was
emitted, by the width of that instruction, and at no other time; so it tells how much of the region
is taken, whatever others do to the region in the meantime.

* `EmissionMove` — what happens to an emission: a call to it, or anything that others do to its
  region; `EmissionMove.emittedAll` are the instructions that were emitted in the course of it.
* `Emission.Gauged` — the cursor is the sum of the widths of given instructions, and within the
  capacity.
* `Emission.Gauged.after` — one move keeps it, with the instruction that the move emits.
* `Emission.gauged_afterAll` — **so it holds after any moves.**
-/

namespace CellMachine

open CellMachine.Action

/-- The instruction that a call emits in an emission of the given mode. -/
def Call.op? (mode : Mode) : Call → Option Op
  | .emit symbols? mnemonic operands =>
    (Resolver.chooseOp ⟨mode, symbols?⟩ mnemonic operands).toOption
  | .emitOp _ op _ => some op
  | .label _ => none

/-- What happens to an emission: a call to it, or something that others do to its region. -/
inductive EmissionMove (ρ : Type)
  | call (c : EmissionCall)
  | behind (f : ρ → ρ)

namespace EmissionMove

variable {ρ : Type} [Region ρ]

/-- The emission after a move, whether a call succeeds or fails. -/
def after : EmissionMove ρ → Emission ρ → Emission ρ
  | .call c, e => c.after e
  | .behind f, e => { e with region := f e.region }

/-- The instruction that a move emits: that of a call that succeeds. -/
def emitted (m : EmissionMove ρ) (e : Emission ρ) : List Op :=
  match m with
  | .call (.add c) =>
    match c.perform e with
    | .ok () _ => (c.op? e.context.mode).toList
    | .error _ _ => []
  | .call .finalize | .call .discard | .behind _ => []

/-- The emission after moves, one after the other. -/
def afterAll (moves : List (EmissionMove ρ)) (e : Emission ρ) : Emission ρ :=
  moves.foldl (fun e m => m.after e) e

/-- The instructions that moves emit, in their order. -/
def emittedAll : List (EmissionMove ρ) → Emission ρ → List Op
  | [], _ => []
  | m :: rest, e => m.emitted e ++ emittedAll rest (m.after e)

end EmissionMove

namespace Emission

variable {ρ : Type}

/-! ### What moves no cursor -/

/-- The cursor, the number of instructions and the capacity of an emission. -/
def StandsAt (cursor emitted capacity : Nat) (e : Emission ρ) : Prop :=
  e.context.cursor = cursor ∧ e.context.emitted = emitted ∧ e.context.capacity = capacity

variable {cursor emitted capacity : Nat}

/-- What is done to the region moves no cursor. -/
theorem onRegion_standsAt {α : Type} (report : Failure → Failure) (x : Action ρ α) :
    Preserves (StandsAt cursor emitted capacity) (onRegion report x) := by
  intro e h
  unfold after onRegion
  cases x e.region with
  | ok a region => exact h
  | error cause region => exact h

/-- Looking at the status moves no cursor. -/
theorem checkOpen_standsAt :
    Preserves (StandsAt cursor emitted capacity) (checkOpen (ρ := ρ)) := by
  intro e h
  unfold after checkOpen
  by_cases hopen : e.context.status = .open
  · simpa only [if_pos hopen] using h
  · simpa only [if_neg hopen] using h

/-- Looking at the context moves no cursor. -/
theorem getContext_standsAt :
    Preserves (StandsAt cursor emitted capacity) (getContext (ρ := ρ)) := fun _ h => h

/-- A change of the labels moves no cursor. -/
theorem relabel_standsAt (f : Context → LabelTable) :
    Preserves (StandsAt cursor emitted capacity)
      (modifyContext (ρ := ρ) fun c => { c with labels := f c }) := fun _ h => h

/-- A change of the status moves no cursor. -/
theorem setStatus_standsAt (status : Status) :
    Preserves (StandsAt cursor emitted capacity)
      (modifyContext (ρ := ρ) fun c => { c with status }) := fun _ h => h

variable [Region ρ]

/-- Writing operands moves no cursor. -/
theorem writeOperands_standsAt : (encs : List Encoded) → ∀ offset : Nat,
    Preserves (StandsAt cursor emitted capacity) (writeOperands (ρ := ρ) offset encs)
  | [], _ => .pure ()
  | .cell v :: rest, offset =>
    .bind (onRegion_standsAt _ _) fun _ => writeOperands_standsAt rest (offset + 1)
  | .label name rule :: rest, offset => by
    have href : Preserves (StandsAt cursor emitted capacity)
        (reference (ρ := ρ) name offset rule) := fun _ h => h
    exact .bind href fun _ => .bind (onRegion_standsAt _ _) fun _ =>
      writeOperands_standsAt rest (offset + 1)

/-- Writing the cells that waited for a label moves no cursor. -/
theorem writeSites_standsAt (labels : LabelTable) (target : Nat) : (sites : List Site) →
    Preserves (StandsAt cursor emitted capacity) (writeSites (ρ := ρ) labels target sites)
  | [] => .pure ()
  | _ :: rest => .bind (onRegion_standsAt _ _) fun _ => writeSites_standsAt labels target rest

/-- Writing traps moves no cursor. -/
theorem fillTraps_standsAt : (count offset : Nat) →
    Preserves (StandsAt cursor emitted capacity) (fillTraps (ρ := ρ) count offset)
  | 0, _ => .pure ()
  | count + 1, offset =>
    .bind (onRegion_standsAt _ _) fun _ => fillTraps_standsAt count (offset + 1)

/-- A definition moves no cursor. -/
theorem defineLabel_standsAt (name : String) :
    Preserves (StandsAt cursor emitted capacity) (defineLabel (ρ := ρ) name) := by
  refine .bind checkOpen_standsAt fun _ => .refuse (.bind getContext_standsAt fun c => ?_)
  cases c.labels.offset? name with
  | some offset => exact .throw _
  | none =>
    exact .bind (relabel_standsAt _) fun _ => .bind (writeSites_standsAt _ _ _) fun _ =>
      relabel_standsAt _

/-- Finalizing moves no cursor. -/
theorem finalize_standsAt :
    Preserves (StandsAt cursor emitted capacity) (finalize (ρ := ρ)) := by
  refine .bind checkOpen_standsAt fun _ => .bind getContext_standsAt fun c => .refuse ?_
  exact .bind (onRegion_standsAt _ _) fun _ => .bind (setStatus_standsAt _) fun _ =>
    .bind .get fun _ => .pure _

/-- Giving an emission up moves no cursor. -/
theorem discard_standsAt : Preserves (StandsAt cursor emitted capacity) (discard (ρ := ρ)) := by
  refine .bind getContext_standsAt fun c => ?_
  cases c.status with
  | finalized => exact .throw _
  | discarded => exact .pure ()
  | «open» =>
    exact .bind (fillTraps_standsAt _ _) fun _ => .bind (onRegion_standsAt _ _) fun _ =>
      setStatus_standsAt _

/-! ### What moves it -/

/-- Before the last step of an instruction the cursor has not moved. -/
theorem writeInstruction_standsAt {op : Op} {encs : List Encoded} {e e' : Emission ρ}
    (h : e.StandsAt cursor emitted capacity) :
    (writeInstruction op encs e = .ok () e' →
      e'.StandsAt (cursor + op.width) (emitted + 1) capacity) ∧
    ∀ failure, writeInstruction op encs e = .error failure e' →
      e'.StandsAt cursor emitted capacity := by
  unfold writeInstruction
  constructor
  · intro hrun
    obtain ⟨⟨⟩, e₁, hstore, hrun⟩ := ok_of_bind hrun
    obtain ⟨⟨⟩, e₂, hwrite, hrun⟩ := ok_of_bind hrun
    have h₁ : e₁.StandsAt cursor emitted capacity := (onRegion_standsAt _ _).ok h hstore
    obtain ⟨hcursor, hemitted, hcapacity⟩ := (writeOperands_standsAt _ _).ok h₁ hwrite
    cases hrun
    exact ⟨congrArg (· + op.width) hcursor, congrArg (· + 1) hemitted, hcapacity⟩
  · intro failure hrun
    rcases error_of_bind hrun with hstore | ⟨⟨⟩, e₁, hstore, hrun⟩
    · exact (onRegion_standsAt _ _).error h hstore
    · have h₁ : e₁.StandsAt cursor emitted capacity := (onRegion_standsAt _ _).ok h hstore
      rcases error_of_bind hrun with hwrite | ⟨⟨⟩, e₂, _, hrun⟩
      · exact (writeOperands_standsAt _ _).error h₁ hwrite
      · cases hrun

/-- The cursor of an emission stands behind the instructions that were emitted, and these fit into
the capacity. -/
structure Gauged (capacity : Nat) (ops : List Op) (e : Emission ρ) : Prop where
  cursor : e.context.cursor = (ops.map Op.width).sum
  emitted : e.context.emitted = ops.length
  same_capacity : e.context.capacity = capacity
  room : e.context.cursor ≤ capacity

/-- An emission that has just been opened has emitted nothing. -/
theorem gauged_start (mode : Mode) (region : ρ) :
    (start mode region).Gauged (Region.capacity region) [] :=
  ⟨rfl, rfl, rfl, Nat.zero_le _⟩

namespace Gauged

variable {ops : List Op} {e e' : Emission ρ}

omit [Region ρ] in
/-- What leaves the cursor alone keeps it where the instructions end. -/
theorem of_standsAt (h : e.Gauged capacity ops)
    (hs : e'.StandsAt e.context.cursor e.context.emitted e.context.capacity) :
    e'.Gauged capacity ops := by
  obtain ⟨hcursor, hemitted, hcapacity⟩ := hs
  exact ⟨hcursor.trans h.cursor, hemitted.trans h.emitted, hcapacity.trans h.same_capacity,
    hcursor ▸ h.room⟩

/-- Emitting an instruction keeps the cursor behind the instructions, with one more if it ends
well. -/
theorem emitOp (h : e.Gauged capacity ops) {symbols? : Option SymbolTable} {op : Op}
    {operands : List Operand} :
    (Emission.emitOp symbols? op operands e = .ok () e' → e'.Gauged capacity (ops ++ [op])) ∧
    ∀ failure, Emission.emitOp symbols? op operands e = .error failure e' →
      e'.Gauged capacity ops := by
  have hsame : e.StandsAt e.context.cursor e.context.emitted e.context.capacity := ⟨rfl, rfl, rfl⟩
  rw [emitOp_eq]
  constructor
  · intro hrun
    split at hrun
    · split at hrun
      · cases hrun
      · split at hrun
        · cases hrun
        · next hroom =>
          obtain ⟨hcursor, hemitted, hcapacity⟩ := (writeInstruction_standsAt hsame).1 hrun
          have hcap := h.same_capacity
          refine ⟨?_, ?_, hcapacity.trans hcap, by omega⟩
          · simp [hcursor, h.cursor]
          · simp [hemitted, h.emitted]
    · cases hrun
  · intro failure hrun
    split at hrun
    · split at hrun
      · cases hrun
        exact h
      · split at hrun
        · cases hrun
          exact h
        · exact h.of_standsAt ((writeInstruction_standsAt hsame).2 failure hrun)
    · cases hrun
      exact h

/-- Emitting the instruction of a mnemonic keeps the cursor behind the instructions. -/
theorem emit (h : e.Gauged capacity ops) {symbols? : Option SymbolTable} {mnemonic : String}
    {operands : List Operand} :
    (Emission.emit symbols? mnemonic operands e = .ok () e' →
      e'.Gauged capacity
        (ops ++ ((Call.emit symbols? mnemonic operands).op? e.context.mode).toList)) ∧
    ∀ failure, Emission.emit symbols? mnemonic operands e = .error failure e' →
      e'.Gauged capacity ops := by
  rw [emit_eq]
  constructor
  · intro hrun
    split at hrun
    · split at hrun
      · cases hrun
      · next op hop =>
        have hchosen : (Call.emit symbols? mnemonic operands).op? e.context.mode = some op := by
          rw [Call.op?, hop]
          rfl
        rw [hchosen]
        exact h.emitOp.1 hrun
    · cases hrun
  · intro failure hrun
    split at hrun
    · split at hrun
      · cases hrun
        exact h
      · exact h.emitOp.2 failure hrun
    · cases hrun
      exact h

/-- A call that adds to an emission keeps the cursor behind the instructions. -/
theorem add (h : e.Gauged capacity ops) {c : Call} :
    (c.perform e = .ok () e' → e'.Gauged capacity (ops ++ (c.op? e.context.mode).toList)) ∧
    ∀ failure, c.perform e = .error failure e' → e'.Gauged capacity ops := by
  cases c with
  | emit symbols? mnemonic operands => exact h.emit
  | emitOp symbols? op operands => exact h.emitOp
  | label name =>
    constructor
    · intro hrun
      rw [Call.op?, Option.toList_none, List.append_nil]
      exact h.of_standsAt ((defineLabel_standsAt name).ok ⟨rfl, rfl, rfl⟩ hrun)
    · intro failure hrun
      exact h.of_standsAt ((defineLabel_standsAt name).error ⟨rfl, rfl, rfl⟩ hrun)

/-- **Whatever happens to an emission, the cursor stays behind the instructions.** -/
theorem after (h : e.Gauged capacity ops) (m : EmissionMove ρ) :
    (m.after e).Gauged capacity (ops ++ m.emitted e) := by
  have hsame : e.StandsAt e.context.cursor e.context.emitted e.context.capacity := ⟨rfl, rfl, rfl⟩
  cases m with
  | behind f =>
    rw [show (EmissionMove.behind f).emitted e = [] from rfl, List.append_nil]
    exact h.of_standsAt hsame
  | call c =>
    cases c with
    | finalize =>
      rw [show (EmissionMove.call .finalize).emitted e = [] from rfl, List.append_nil]
      exact h.of_standsAt (finalize_standsAt e hsame)
    | discard =>
      rw [show (EmissionMove.call .discard).emitted e = [] from rfl, List.append_nil]
      exact h.of_standsAt (discard_standsAt e hsame)
    | add c =>
      show (c.perform.after e).Gauged capacity (ops ++ match c.perform e with
        | .ok () _ => (c.op? e.context.mode).toList
        | .error _ _ => [])
      cases hrun : c.perform e with
      | ok a e' =>
        rw [after_of_ok hrun]
        exact h.add.1 hrun
      | error failure e' =>
        rw [after_of_error hrun, List.append_nil]
        exact h.add.2 failure hrun

end Gauged

/-- **After any moves the cursor is the sum of the widths of what was emitted**, and within the
capacity. -/
theorem gauged_afterAll (moves : List (EmissionMove ρ)) {ops : List Op} {e : Emission ρ}
    (h : e.Gauged capacity ops) :
    (EmissionMove.afterAll moves e).Gauged capacity (ops ++ EmissionMove.emittedAll moves e) := by
  induction moves generalizing ops e with
  | nil =>
    rw [EmissionMove.emittedAll, List.append_nil]
    exact h
  | cons m rest ih =>
    rw [EmissionMove.emittedAll, ← List.append_assoc]
    exact ih (h.after m)

end Emission

end CellMachine
