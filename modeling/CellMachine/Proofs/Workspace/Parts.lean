import CellMachine.Proofs.Action
import CellMachine.Workspace

/-!
# What a reference reaches

Everything in a workspace is done through references. What is done through one of them is done to
the part that it names, and for some to the part that this one refers to: a processor works in a
memory, an emission writes into a region and a block belongs to a program. Nothing else is changed.

* `after_onMemory`, `after_onLease`, `after_patch` — a memory, by itself or through a lease on it.
* `after_onMachine` — a processor together with its memory.
* `after_onBlock`, `after_onEmission_block` — a block together with its program, and the emission in
  it, which writes into its segment as placed there.
* `after_onEmission_lease`, `after_onEmission_buffer` — an emission together with the memory of its
  lease, or with a buffer.
-/

namespace CellMachine

open CellMachine.Action

variable {α : Type}

/-- What is done to the emission of a block changes the emission. -/
theorem Worksite.after_onEmission (action : Action (Emission Placement) α) (s : Worksite) :
    (onEmission action).after s = s.ofEmission (action.after s.emission) := by
  unfold after onEmission
  cases action s.emission <;> rfl

namespace Workspace

variable {w : Workspace}

/-! ### Memories and leases -/

/-- What is done to a memory changes the memory that the index names. -/
theorem after_onMemory {i : Nat} {m : Memory} (hm : w.memories[i]? = some m)
    (action : Action Memory α) :
    (onMemory i action).after w =
      { w with memories := w.memories.setIfInBounds i (action.after m) } := by
  unfold after onMemory
  rw [hm]
  dsimp only
  cases action m <;> rfl

/-- An index that names no memory changes nothing. -/
theorem after_onMemory_none {i : Nat} (hm : w.memories[i]? = none) (action : Action Memory α) :
    (onMemory i action).after w = w := by
  unfold after onMemory
  rw [hm]

/-- What is done through a lease is done to the memory as it is seen through the lease. -/
theorem after_onLease {i : Nat} {m : Memory} (hm : w.memories[i]? = some m) (id : Nat)
    (action : Action Leasehold α) :
    (onLease i id action).after w =
      { w with memories := w.memories.setIfInBounds i (action.after ⟨id, m⟩).memory } := by
  refine (after_onMemory hm _).trans ?_
  unfold after
  dsimp only
  cases action ⟨id, m⟩ <;> rfl

/-- Patches are applied to the memory that the index names. -/
theorem after_patch {i : Nat} {m : Memory} (hm : w.memories[i]? = some m) (patches : List Patch) :
    (patch i patches).after w =
      let patched := (Patched.applyAll patches).after { memory := m }
      { w with memories := w.memories.setIfInBounds i patched.memory } := by
  refine (after_onMemory hm _).trans ?_
  unfold after
  dsimp only
  cases Patched.applyAll patches { memory := m } <;> rfl

/-- A processor works in the memory that it refers to. -/
theorem after_onMachine {k : Nat} {placed : PlacedProcessor} (hk : w.processors[k]? = some placed)
    {m : Memory} (hm : w.memories[placed.memory]? = some m) (action : Action Machine α) :
    (onMachine k action).after w =
      let machine := action.after ⟨placed.processor, m⟩
      { w with
        memories := w.memories.setIfInBounds placed.memory machine.memory
        processors :=
          w.processors.setIfInBounds k { placed with processor := machine.processor } } := by
  unfold after onMachine onMemory
  rw [hk]
  dsimp only
  rw [hm]
  dsimp only
  cases action ⟨placed.processor, m⟩ <;> rfl

/-- A processor is there with its memory, or nothing is changed. -/
theorem after_onMachine_cases (w : Workspace) (k : Nat) (action : Action Machine α) :
    (onMachine k action).after w = w ∨ ∃ placed m, w.processors[k]? = some placed ∧
      w.memories[placed.memory]? = some m := by
  cases hk : w.processors[k]? with
  | none =>
    left
    unfold after onMachine
    rw [hk]
  | some placed =>
    cases hm : w.memories[placed.memory]? with
    | none =>
      left
      unfold after onMachine onMemory
      rw [hk]
      dsimp only
      rw [hm]
    | some m => exact .inr ⟨placed, m, rfl, hm⟩

/-! ### Programs and blocks -/

/-- What is done to a program changes the program that the index names. -/
theorem after_onProgram {i : Nat} {p : Program} (hp : w.programs[i]? = some p)
    (action : Action Program α) :
    (onProgram i action).after w =
      { w with programs := w.programs.setIfInBounds i (action.after p) } := by
  unfold after onProgram
  rw [hp]
  dsimp only
  cases action p <;> rfl

/-- An index that names no program changes nothing. -/
theorem after_onProgram_none {i : Nat} (hp : w.programs[i]? = none) (action : Action Program α) :
    (onProgram i action).after w = w := by
  unfold after onProgram
  rw [hp]

/-- A block that is opened is the last one, and its program has it open. One that cannot be opened
changes nothing. -/
theorem after_openBlock {i : Nat} {p : Program} (hp : w.programs[i]? = some p) (capacity : Int) :
    (openBlock i capacity).after w =
      match Program.openBlock capacity p with
      | .ok block p' =>
        { w with
          programs := w.programs.setIfInBounds i p'
          blocks := w.blocks.push { block, program := i } }
      | .error _ p' => { w with programs := w.programs.setIfInBounds i p' } := by
  cases hopen : Program.openBlock capacity p with
  | error failure p' =>
    have hfirst : onProgram i (Program.openBlock capacity) w =
        .error failure { w with programs := w.programs.setIfInBounds i p' } := by
      unfold onProgram
      simp only [hp, hopen]
    exact after_of_error (bind_of_error hfirst)
  | ok block p' =>
    have hfirst : onProgram i (Program.openBlock capacity) w =
        .ok block { w with programs := w.programs.setIfInBounds i p' } := by
      unfold onProgram
      simp only [hp, hopen]
    exact after_of_ok (bind_of_ok hfirst)

/-- No block is opened in a program that is not there. -/
theorem after_openBlock_none {i : Nat} (hp : w.programs[i]? = none) (capacity : Int) :
    (openBlock i capacity).after w = w := by
  have hfirst : onProgram i (Program.openBlock capacity) w = .error .crash w := by
    unfold onProgram
    rw [hp]
  exact after_of_error (bind_of_error hfirst)

/-- A block is worked on in the program that it belongs to. -/
theorem after_onBlock {k : Nat} {placed : PlacedBlock} (hk : w.blocks[k]? = some placed)
    {p : Program} (hp : w.programs[placed.program]? = some p) (action : Action Worksite α) :
    (onBlock k action).after w =
      let site := action.after ⟨placed.block, p⟩
      { w with
        programs := w.programs.setIfInBounds placed.program site.program
        blocks := w.blocks.setIfInBounds k { placed with block := site.block } } := by
  unfold after onBlock onProgram
  rw [hk]
  dsimp only
  rw [hp]
  dsimp only
  cases action ⟨placed.block, p⟩ <;> rfl

/-- A block is there with its program, or nothing is changed. -/
theorem after_onBlock_cases (w : Workspace) (k : Nat) (action : Action Worksite α) :
    (onBlock k action).after w = w ∨ ∃ placed p, w.blocks[k]? = some placed ∧
      w.programs[placed.program]? = some p := by
  cases hk : w.blocks[k]? with
  | none =>
    left
    unfold after onBlock
    rw [hk]
  | some placed =>
    cases hp : w.programs[placed.program]? with
    | none =>
      left
      unfold after onBlock onProgram
      rw [hk]
      dsimp only
      rw [hp]
    | some p => exact .inr ⟨placed, p, rfl, hp⟩

/-- The emission in a block writes into the segment of the block, which is placed in the program,
and has the symbols of the program. -/
theorem after_onEmission_block {k : Nat} {placed : PlacedBlock} (hk : w.blocks[k]? = some placed)
    {p : Program} (hp : w.programs[placed.program]? = some p)
    (action : {ρ : Type} → [Region ρ] → Option SymbolTable → Action (Emission ρ) α) :
    (onEmission (.block k) action).after w =
      let site : Worksite := ⟨placed.block, p⟩
      let e : Emission Placement := (action (some p.scope.symbol?)).after site.emission
      let block := { placed.block with context := e.context, segment := e.region.segment }
      { w with
        programs := w.programs.setIfInBounds placed.program e.region.program
        blocks := w.blocks.setIfInBounds k { placed with block } } := by
  have hblock : (onEmission (.block k) action).after w =
      (onBlock k fun s => Worksite.onEmission (action s.symbols) s).after w := rfl
  have hsite : after (fun s => Worksite.onEmission (action s.symbols) s) ⟨placed.block, p⟩ =
      Worksite.ofEmission ⟨placed.block, p⟩ ((action (some p.scope.symbol?)).after
        (Worksite.emission ⟨placed.block, p⟩)) :=
    Worksite.after_onEmission (action (some p.scope.symbol?)) ⟨placed.block, p⟩
  exact hblock.trans ((after_onBlock hk hp _).trans (congrArg (fun site : Worksite => { w with
    programs := w.programs.setIfInBounds placed.program site.program
    blocks := w.blocks.setIfInBounds k { placed with block := site.block } }) hsite))

/-! ### Emissions on leases -/

/-- An emission on a lease writes into the memory as it is seen through the lease, and has the
symbols of its source. -/
theorem after_onEmission_lease {k i id : Nat} {opened : OpenedEmission}
    (hk : w.emissions[k]? = some opened) (hregion : opened.region = .lease i id) {m : Memory}
    (hm : w.memories[i]? = some m)
    (action : {ρ : Type} → [Region ρ] → Option SymbolTable → Action (Emission ρ) α) :
    (onEmission (.opened k) action).after w =
      let e : Emission Leasehold :=
        (action (opened.symbols?.bind w.symbols?)).after ⟨opened.context, ⟨id, m⟩⟩
      { w with
        memories := w.memories.setIfInBounds i e.region.memory
        emissions := w.emissions.setIfInBounds k { opened with context := e.context } } := by
  unfold after onEmission
  dsimp only
  rw [hk]
  dsimp only
  rw [hregion]
  dsimp only [onRegion, onLease, onMemory]
  rw [hm]
  dsimp only
  generalize (action (opened.symbols?.bind w.symbols?) : Action (Emission Leasehold) α)
    ⟨opened.context, ⟨id, m⟩⟩ = result
  cases result <;> rfl

/-- An emission on a buffer changes no memory, and of the emissions its own context at most. -/
theorem after_onEmission_buffer {k j : Nat} {opened : OpenedEmission}
    (hk : w.emissions[k]? = some opened) (hregion : opened.region = .buffer j)
    (action : {ρ : Type} → [Region ρ] → Option SymbolTable → Action (Emission ρ) α) :
    ((onEmission (.opened k) action).after w).memories = w.memories ∧
      (((onEmission (.opened k) action).after w).emissions = w.emissions ∨
        ∃ new, ((onEmission (.opened k) action).after w).emissions =
          w.emissions.setIfInBounds k { opened with context := new }) := by
  unfold after onEmission
  dsimp only
  rw [hk]
  dsimp only
  rw [hregion]
  dsimp only [onRegion, onBuffer]
  cases w.buffers[j]? with
  | none => exact ⟨rfl, .inl rfl⟩
  | some buffer =>
    dsimp only
    generalize (action (opened.symbols?.bind w.symbols?) : Action (Emission Buffer) α)
      ⟨opened.context, buffer⟩ = result
    cases result <;> exact ⟨rfl, .inr ⟨_, rfl⟩⟩

end Workspace

end CellMachine
