import CellMachine.Proofs.Patch.Moves
import CellMachine.Proofs.Program.Build
import CellMachine.Proofs.Workspace.Parts

/-!
# What comes about in a workspace

A workspace begins empty. Parts are added to it, and whatever is done to a part is one of the calls
that the part has for itself; which call that is may depend on what the part is like just then, and
on the symbols that are in force.

* `ProgramCall`, `SiteCall` — calls to a program and to one of its blocks.
* `Workspace.Step`, `Workspace.Reachable` — one thing that is done, and what comes about by many.
* `Workspace.SameLand`, `Workspace.SameSites` — what concerns programs only leaves memories and
  emissions alone, and the other way round.
-/

namespace CellMachine

open CellMachine.Action

/-! ### Calls to programs -/

/-- A call to a program. -/
inductive ProgramCall
  | declareGlobal (name : String) (init : Cell)
  | declareLocal (name : String) (offset : Cell)
  | beginRoutine (name : String)
  | append (cells : Array Cell)
  | endRoutine (reserve : Int)

/-- The program after a call to it. -/
def ProgramCall.after : ProgramCall → Program → Program
  | .declareGlobal name init => (Program.declareGlobal name init).after
  | .declareLocal name offset => (Program.declareLocal name offset).after
  | .beginRoutine name => (Program.beginRoutine name).after
  | .append cells => fun p => p.append cells
  | .endRoutine reserve => (Program.endRoutine reserve).after

/-- A call to a block in its program. -/
inductive SiteCall
  /-- Frames of variables are left to the program. -/
  | work (call : BlockCall) (keeps : call.KeepsScope)
  | close
  | discard

/-- The block and its program after a call to the block. -/
def SiteCall.after : SiteCall → Worksite → Worksite
  | .work call _ => call.perform.after
  | .close => Worksite.close.after
  | .discard => Worksite.discard.after

namespace Workspace

/-! ### Steps -/

/-- A region that is there. -/
def Names (w : Workspace) : RegionRef → Prop
  | .buffer i => i < w.buffers.size
  | .lease i id => ∃ m, w.memories[i]? = some m ∧ id < m.leases.size

/-- Something is done in a workspace. -/
inductive Step (w : Workspace) : Workspace → Prop
  | addBuffer (base : Addr) (capacity : Int) : Step w ((addBuffer base capacity).after w)
  | addMemory (size stack : Int) : Step w ((addMemory size stack).after w)
  | addProgram (dataBase : Addr) (dataCells : Int) :
    Step w ((addProgram dataBase dataCells).after w)
  | addProcessor (memory : Nat) (stepLimit : Int) :
    Step w ((addProcessor memory stepLimit).after w)
  | openBlock (program : Nat) (capacity : Int) : Step w ((openBlock program capacity).after w)
  | openEmission (mode : Mode) {region? : Option RegionRef} (symbols? : Option SymbolSource) :
    (∀ r ∈ region?, w.Names r) → Step w ((openEmission mode region? symbols?).after w)
  | onBuffer {α : Type} (i : Nat) (action : Action Buffer α) : Step w ((onBuffer i action).after w)
  | onMemory {α : Type} (i : Nat) {action : Action Memory α} :
    (∀ m, ∃ c : MemoryCall, action.after m = c.after m) → Step w ((onMemory i action).after w)
  | onLease {α : Type} (i id : Nat) {action : Action Leasehold α} :
    (∀ h, ∃ c : LeaseCall, action.after h = c.after h) → Step w ((onLease i id action).after w)
  | onEmission {α : Type} (k : Nat)
    {action : {ρ : Type} → [Region ρ] → Option SymbolTable → Action (Emission ρ) α} :
    (∀ symbols? (e : Emission Leasehold), ∃ c : EmissionCall,
      (action symbols?).after e = c.after e) → Step w ((onEmission (.opened k) action).after w)
  | onMachine {α : Type} (k : Nat) {action : Action Machine α} :
    (∀ M, ∃ target? args, action.after M = (Machine.invoke target? args).after M) →
    Step w ((onMachine k action).after w)
  | patch (i : Nat) (patches : List Patch) : Step w ((patch i patches).after w)
  | onProgram {α : Type} (i : Nat) {action : Action Program α} :
    (∀ p, ∃ c : ProgramCall, action.after p = c.after p) → Step w ((onProgram i action).after w)
  | onBlock {α : Type} (k : Nat) {action : Action Worksite α} :
    (∀ s, ∃ c : SiteCall, action.after s = c.after s) → Step w ((onBlock k action).after w)

/-- What can come about in a workspace. -/
inductive Reachable : Workspace → Prop
  | new : Reachable {}
  | step {w w' : Workspace} : Reachable w → Step w w' → Reachable w'

/-! ### What is left alone -/

/-- Memories and emissions are the same. -/
structure SameLand (w w' : Workspace) : Prop where
  memories : w'.memories = w.memories
  emissions : w'.emissions = w.emissions

/-- Programs and blocks are the same. -/
structure SameSites (w w' : Workspace) : Prop where
  programs : w'.programs = w.programs
  blocks : w'.blocks = w.blocks

variable {α : Type}

/-- The sites are the same after an action that ends well. -/
theorem SameSites.of_ok {w w' : Workspace} {action : Action Workspace α} {a : α}
    (hsame : w.SameSites (action.after w)) (h : action w = .ok a w') : w.SameSites w' :=
  after_of_ok h ▸ hsame

/-- The sites are the same after an action that fails. -/
theorem SameSites.of_error {w w' : Workspace} {action : Action Workspace α} {failure : Failure}
    (hsame : w.SameSites (action.after w)) (h : action w = .error failure w') : w.SameSites w' :=
  after_of_error h ▸ hsame

variable (w : Workspace)

/-- A buffer is neither land nor site. -/
theorem onBuffer_same (i : Nat) (action : Action Buffer α) :
    w.SameLand ((onBuffer i action).after w) ∧ w.SameSites ((onBuffer i action).after w) := by
  unfold after onBuffer
  cases w.buffers[i]? with
  | none => exact ⟨⟨rfl, rfl⟩, ⟨rfl, rfl⟩⟩
  | some buffer =>
    dsimp only
    cases action buffer <;> exact ⟨⟨rfl, rfl⟩, ⟨rfl, rfl⟩⟩

/-- What is done to a program is not done to land. -/
theorem onProgram_sameLand (i : Nat) (action : Action Program α) :
    w.SameLand ((onProgram i action).after w) := by
  unfold after onProgram
  cases w.programs[i]? with
  | none => exact ⟨rfl, rfl⟩
  | some p =>
    dsimp only
    cases action p <;> exact ⟨rfl, rfl⟩

/-- What is done to a block is not done to land. -/
theorem onBlock_sameLand (k : Nat) (action : Action Worksite α) :
    w.SameLand ((onBlock k action).after w) := by
  rcases after_onBlock_cases w k action with hsame | ⟨placed, p, hk, hp⟩
  · rw [hsame]
    exact ⟨rfl, rfl⟩
  · rw [after_onBlock hk hp]
    exact ⟨rfl, rfl⟩

/-- What is done to a memory is not done to sites. -/
theorem onMemory_sameSites (i : Nat) (action : Action Memory α) :
    w.SameSites ((onMemory i action).after w) := by
  cases hm : w.memories[i]? with
  | none =>
    rw [after_onMemory_none hm]
    exact ⟨rfl, rfl⟩
  | some m =>
    rw [after_onMemory hm]
    exact ⟨rfl, rfl⟩

/-- What is done to a region is not done to sites. -/
theorem onRegion_sameSites (r : RegionRef) (action : {ρ : Type} → [Region ρ] → Action ρ α) :
    w.SameSites ((onRegion r action).after w) := by
  cases r with
  | buffer i => exact (onBuffer_same w i action).2
  | lease i id => exact onMemory_sameSites w i _

/-- What is done to a processor is not done to sites. -/
theorem onMachine_sameSites (k : Nat) (action : Action Machine α) :
    w.SameSites ((onMachine k action).after w) := by
  rcases after_onMachine_cases w k action with hsame | ⟨placed, m, hk, hm⟩
  · rw [hsame]
    exact ⟨rfl, rfl⟩
  · rw [after_onMachine hk hm]
    exact ⟨rfl, rfl⟩

/-- What is done to an emission that was opened on a region is not done to sites. -/
theorem onEmission_sameSites (k : Nat)
    (action : {ρ : Type} → [Region ρ] → Option SymbolTable → Action (Emission ρ) α) :
    w.SameSites ((onEmission (.opened k) action).after w) := by
  unfold after onEmission
  dsimp only
  cases w.emissions[k]? with
  | none => exact ⟨rfl, rfl⟩
  | some opened =>
    dsimp only
    split
    · next h =>
      split at h
      · next hok =>
        cases h
        obtain ⟨hprograms, hblocks⟩ := SameSites.of_ok (w.onRegion_sameSites opened.region _) hok
        exact ⟨hprograms, hblocks⟩
      · next hok =>
        cases h
      · cases h
    · next h =>
      split at h
      · cases h
      · next hok =>
        cases h
        obtain ⟨hprograms, hblocks⟩ := SameSites.of_ok (w.onRegion_sameSites opened.region _) hok
        exact ⟨hprograms, hblocks⟩
      · next herror =>
        cases h
        exact SameSites.of_error (w.onRegion_sameSites opened.region _) herror

/-- What is opened on a region is no site. -/
theorem openEmission_sameSites (mode : Mode) (region? : Option RegionRef)
    (symbols? : Option SymbolSource) :
    w.SameSites ((openEmission mode region? symbols?).after w) := by
  cases region? with
  | none => exact ⟨rfl, rfl⟩
  | some region =>
    have hsame := w.onRegion_sameSites region (freshContext mode)
    cases hopen : onRegion region (freshContext mode) w with
    | error failure w' =>
      have hafter : (openEmission mode (some region) symbols?).after w = w' :=
        after_of_error (bind_of_error hopen)
      exact hafter ▸ hsame.of_error hopen
    | ok context w' =>
      have hafter : (openEmission mode (some region) symbols?).after w =
          { w' with emissions := w'.emissions.push { context, region, symbols? } } :=
        after_of_ok (bind_of_ok hopen)
      obtain ⟨hprograms, hblocks⟩ := hsame.of_ok hopen
      exact hafter ▸ ⟨hprograms, hblocks⟩

end Workspace

end CellMachine
