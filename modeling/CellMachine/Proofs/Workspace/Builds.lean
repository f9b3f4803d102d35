import CellMachine.Proofs.Workspace.Steps

/-!
# Every program of a workspace is that of a build

A block of a workspace says by an index to which program it belongs, and has a number in that
program. Whatever happens, each program goes its own way: it is the program of a build, the build
has its blocks under their numbers, and what is done to either is a call of the build. So what holds
of all builds holds of all programs of a workspace.

* `Build.Reachable` — what can come about from a new program.
* `ProgramCall.build_after`, `SiteCall.build_after` — calls to a program and to its blocks are calls
  of the build.
* `Workspace.Reflects` — a build with the program and its blocks; no two blocks have one number.
* `Workspace.Founded.step` — **a step in a workspace is at most a call of one build.**
* `Workspace.Reachable.build` — **every program of a workspace is that of a build.**
-/

namespace CellMachine

open CellMachine.Action

namespace Build

/-- What can come about from a new program. -/
def Reachable (s : Build) : Prop :=
  ∃ dataBase dataCells p calls, Program.new dataBase dataCells = .ok p ∧
    (start p).afterAll calls = s

variable {s : Build}

/-- One more call. -/
theorem Reachable.call (h : s.Reachable) (c : BuildCall) : (s.after c).Reachable := by
  obtain ⟨dataBase, dataCells, p, calls, hnew, rfl⟩ := h
  refine ⟨dataBase, dataCells, p, calls ++ [c], hnew, ?_⟩
  exact List.foldl_append

/-- What comes about is sound. -/
theorem Reachable.sound (h : s.Reachable) : s.Sound := by
  obtain ⟨dataBase, dataCells, p, calls, hnew, rfl⟩ := h
  exact ((sound_start hnew).afterAll calls).1

end Build

/-! ### Calls of the build -/

/-- The call of the build that a call to the program is. -/
def ProgramCall.build : ProgramCall → BuildCall
  | .declareGlobal name init => .declareGlobal name init
  | .declareLocal name offset => .declareLocal name offset
  | .beginRoutine name => .beginRoutine name
  | .append cells => .append cells
  | .endRoutine reserve => .endRoutine reserve

/-- A call to the program changes the program of the build, and no block. -/
theorem ProgramCall.build_after (c : ProgramCall) (s : Build) :
    (s.after c.build).program = c.after s.program ∧ (s.after c.build).blocks = s.blocks := by
  cases c with
  | declareLocal | append => exact ⟨rfl, rfl⟩
  | declareGlobal name init =>
    unfold ProgramCall.after ProgramCall.build Build.after Action.after
    dsimp only
    cases Program.declareGlobal name init s.program <;> exact ⟨rfl, rfl⟩
  | beginRoutine name =>
    unfold ProgramCall.after ProgramCall.build Build.after Action.after
    dsimp only
    cases Program.beginRoutine name s.program <;> exact ⟨rfl, rfl⟩
  | endRoutine reserve =>
    unfold ProgramCall.after ProgramCall.build Build.after Action.after
    dsimp only
    cases Program.endRoutine reserve s.program <;> exact ⟨rfl, rfl⟩

/-- The call of the build that a call to a block is. -/
def SiteCall.build (id : Nat) : SiteCall → BuildCall
  | .work call keeps => .work id call keeps
  | .close => .close id
  | .discard => .discard id

/-- A call to a block changes the block and the program of the build. -/
theorem SiteCall.build_after (c : SiteCall) {s : Build} {id : Nat} {b : OpenedBlock}
    (hb : s.blocks[id]? = some b) :
    (s.after (c.build id)).program = (c.after ⟨b.block, s.program⟩).program ∧
      ∃ calls, (s.after (c.build id)).blocks =
        s.blocks.set id ⟨(c.after ⟨b.block, s.program⟩).block, calls⟩ := by
  cases c with
  | work call keeps =>
    unfold SiteCall.after SiteCall.build Build.after Action.after
    simp only [hb]
    cases call.perform ⟨b.block, s.program⟩ <;> exact ⟨rfl, _, rfl⟩
  | close =>
    unfold SiteCall.after SiteCall.build Build.after Action.after
    simp only [hb]
    cases Worksite.close ⟨b.block, s.program⟩ <;> exact ⟨rfl, _, rfl⟩
  | discard =>
    unfold SiteCall.after SiteCall.build Build.after
    simp only [hb]
    exact ⟨rfl, _, rfl⟩

namespace Workspace

variable {w w' : Workspace} {i j k : Nat} {s s' : Build}

/-! ### Builds of programs -/

/-- The program `i` of the workspace is that of a build, which has its blocks under their
numbers. -/
structure Reflects (w : Workspace) (i : Nat) (s : Build) : Prop where
  program : w.programs[i]? = some s.program
  blocks : ∀ (k : Nat) placed, w.blocks[k]? = some placed → placed.program = i →
    ∃ calls, s.blocks[placed.block.id]? = some ⟨placed.block, calls⟩
  apart : ∀ (k k' : Nat) placed placed', w.blocks[k]? = some placed → w.blocks[k']? = some placed' →
    placed.program = i → placed'.program = i → placed.block.id = placed'.block.id → k = k'

/-- A block that has changed has its new state in the build, and all others are as they were. -/
theorem Reflects.worked (h : w.Reflects i s) {placed : PlacedBlock}
    (hk : w.blocks[k]? = some placed) (hi : placed.program = i) {block : Block} {calls : List Call}
    (hid : block.id = placed.block.id) (hprogram : w'.programs[i]? = some s'.program)
    (hplaced : w'.blocks = w.blocks.setIfInBounds k { placed with block })
    (hblocks : s'.blocks = s.blocks.set placed.block.id ⟨block, calls⟩) : w'.Reflects i s' := by
  obtain ⟨_, hb⟩ := h.blocks k placed hk hi
  have hget {k' : Nat} {placed' : PlacedBlock} (hk' : w'.blocks[k']? = some placed') :
      k' = k ∧ placed' = { placed with block } ∨ k' ≠ k ∧ w.blocks[k']? = some placed' := by
    rw [hplaced, Array.getElem?_setIfInBounds] at hk'
    split at hk'
    · next hsame =>
      split at hk'
      · exact .inl ⟨hsame.symm, (Option.some.inj hk').symm⟩
      · cases hk'
    · next hne => exact .inr ⟨Ne.symm hne, hk'⟩
  refine ⟨hprogram, fun k' placed' hk' hi' => ?_,
    fun k₁ k₂ placed₁ placed₂ h₁ h₂ hi₁ hi₂ hsame => ?_⟩
  · rcases hget hk' with ⟨-, rfl⟩ | ⟨hne, hold⟩
    · refine ⟨calls, ?_⟩
      rw [hblocks, hid, List.getElem?_set_self (List.getElem?_eq_some_iff.mp hb).1]
    · obtain ⟨calls', hb'⟩ := h.blocks k' placed' hold hi'
      refine ⟨calls', ?_⟩
      have hapart : placed.block.id ≠ placed'.block.id := fun hsame =>
        hne (h.apart k' k placed' placed hold hk hi' hi hsame.symm)
      rw [hblocks, List.getElem?_set_ne hapart]
      exact hb'
  · rcases hget h₁ with ⟨rfl, rfl⟩ | ⟨-, hold₁⟩
    · rcases hget h₂ with ⟨rfl, rfl⟩ | ⟨-, hold₂⟩
      · rfl
      · exact h.apart k₁ k₂ placed placed₂ hk hold₂ hi hi₂ (hid.symm.trans hsame)
    · rcases hget h₂ with ⟨rfl, rfl⟩ | ⟨-, hold₂⟩
      · exact h.apart k₁ k₂ placed₁ placed hold₁ hk hi₁ hi (hsame.trans hid)
      · exact h.apart k₁ k₂ placed₁ placed₂ hold₁ hold₂ hi₁ hi₂ hsame

/-- A new block has the next number, which no other block has. -/
theorem Reflects.opened (h : w.Reflects i s) {block : Block} (hid : block.id = s.blocks.length)
    (hprogram : w'.programs[i]? = some s'.program)
    (hplaced : w'.blocks = w.blocks.push { block, program := i })
    (hblocks : s'.blocks = s.blocks ++ [⟨block, []⟩]) : w'.Reflects i s' := by
  have hget {k : Nat} {placed : PlacedBlock} (hk : w'.blocks[k]? = some placed) :
      k = w.blocks.size ∧ placed = { block, program := i } ∨ w.blocks[k]? = some placed := by
    rw [hplaced, Array.getElem?_push] at hk
    split at hk
    · next hnew => exact .inl ⟨hnew, (Option.some.inj hk).symm⟩
    · exact .inr hk
  have hold {k : Nat} {placed : PlacedBlock} (hk : w.blocks[k]? = some placed)
      (hi : placed.program = i) : placed.block.id < s.blocks.length := by
    obtain ⟨_, hb⟩ := h.blocks k placed hk hi
    exact (List.getElem?_eq_some_iff.mp hb).1
  refine ⟨hprogram, fun k placed hk hi => ?_, fun k₁ k₂ placed₁ placed₂ h₁ h₂ hi₁ hi₂ hsame => ?_⟩
  · rw [hblocks]
    rcases hget hk with ⟨-, rfl⟩ | hk
    · exact ⟨[], hid ▸ List.getElem?_concat_length⟩
    · obtain ⟨calls, hb⟩ := h.blocks k placed hk hi
      exact ⟨calls, (List.getElem?_append_left (hold hk hi)).trans hb⟩
  · rcases hget h₁ with ⟨rfl, rfl⟩ | h₁
    · rcases hget h₂ with ⟨rfl, -⟩ | h₂
      · rfl
      · exact absurd (hsame.symm.trans hid) (Nat.ne_of_lt (hold h₂ hi₂))
    · rcases hget h₂ with ⟨rfl, rfl⟩ | h₂
      · exact absurd (hsame.trans hid) (Nat.ne_of_lt (hold h₁ hi₁))
      · exact h.apart k₁ k₂ placed₁ placed₂ h₁ h₂ hi₁ hi₂ hsame

/-- Every program is that of a build, and blocks belong to programs that are there. -/
structure Founded (w : Workspace) : Prop where
  builds : ∀ i < w.programs.size, ∃ s : Build, s.Reachable ∧ w.Reflects i s
  named : ∀ (k : Nat) placed, w.blocks[k]? = some placed → placed.program < w.programs.size

/-- Nothing happened to programs and blocks. -/
theorem Founded.of_sameSites (h : w.Founded) (hsame : w.SameSites w') : w'.Founded := by
  obtain ⟨hprograms, hblocks⟩ := hsame
  refine ⟨fun i hi => ?_, ?_⟩
  · obtain ⟨s, hs, hreflects⟩ := h.builds i (hprograms ▸ hi)
    exact ⟨s, hs, hprograms ▸ hreflects.program, hblocks ▸ hreflects.blocks,
      hblocks ▸ hreflects.apart⟩
  · rw [hprograms, hblocks]
    exact h.named

/-- One program has changed together with blocks of it, as a build may change. -/
theorem Founded.of_change (h : w.Founded) {p' : Program}
    (hprograms : w'.programs = w.programs.setIfInBounds j p')
    (hblocks : ∀ (k : Nat) placed, w'.blocks[k]? = some placed → placed.program ≠ j →
      w.blocks[k]? = some placed)
    (hj : j < w.programs.size)
    (hchange : ∀ s : Build, s.Reachable → w.Reflects j s → w'.programs[j]? = some p' →
      ∃ s' : Build, s'.Reachable ∧ w'.Reflects j s') : w'.Founded := by
  have hsize : w'.programs.size = w.programs.size := by rw [hprograms, Array.size_setIfInBounds]
  refine ⟨fun i hi => ?_, fun k placed hk => ?_⟩
  · rw [hsize] at hi
    obtain ⟨s, hs, hreflects⟩ := h.builds i hi
    by_cases hij : i = j
    · subst hij
      exact hchange s hs hreflects (by rw [hprograms, Array.getElem?_setIfInBounds_self_of_lt hi])
    · refine ⟨s, hs, ?_, fun k placed hk hi => ?_, fun k k' placed placed' hk hk' hi hi' => ?_⟩
      · rw [hprograms, Array.getElem?_setIfInBounds_ne (Ne.symm hij)]
        exact hreflects.program
      · exact hreflects.blocks k placed (hblocks k placed hk (hi ▸ hij)) hi
      · exact hreflects.apart k k' placed placed' (hblocks k placed hk (hi ▸ hij))
          (hblocks k' placed' hk' (hi' ▸ hij)) hi hi'
  · rw [hsize]
    by_cases hij : placed.program = j
    · exact hij ▸ hj
    · exact h.named k placed (hblocks k placed hk hij)

/-- A new program is that of a new build, and has no blocks. -/
theorem founded_addProgram (h : w.Founded) (dataBase : Addr) (dataCells : Int) :
    ((addProgram dataBase dataCells).after w).Founded := by
  cases hnew : Program.new dataBase dataCells with
  | error failure =>
    refine h.of_sameSites ?_
    unfold after addProgram
    rw [hnew]
    exact ⟨rfl, rfl⟩
  | ok p =>
    have hafter : (addProgram dataBase dataCells).after w =
        { w with programs := w.programs.push p } := by
      unfold after addProgram
      rw [hnew]
    rw [hafter]
    refine ⟨fun i hi => ?_, fun k placed hk => ?_⟩
    · by_cases hi' : i < w.programs.size
      · obtain ⟨s, hs, hreflects⟩ := h.builds i hi'
        refine ⟨s, hs, ?_, hreflects.blocks, hreflects.apart⟩
        rw [Array.getElem?_push, if_neg (Nat.ne_of_lt hi')]
        exact hreflects.program
      · rw [Array.size_push] at hi
        obtain rfl : i = w.programs.size := by omega
        have hnone : ∀ (k : Nat) placed, w.blocks[k]? = some placed →
            placed.program ≠ w.programs.size :=
          fun k placed hk => Nat.ne_of_lt (h.named k placed hk)
        refine ⟨Build.start p, ⟨dataBase, dataCells, p, [], hnew, rfl⟩, ?_,
          fun k placed hk hi => absurd hi (hnone k placed hk),
          fun k k' placed placed' hk _ hi => absurd hi (hnone k placed hk)⟩
        rw [Array.getElem?_push, if_pos rfl]
        rfl
    · rw [Array.size_push]
      exact Nat.lt_succ_of_lt (h.named k placed hk)

/-- A call to a program is a call of its build. -/
theorem founded_onProgram {α : Type} (h : w.Founded) (i : Nat) {action : Action Program α}
    (hcall : ∀ p, ∃ c : ProgramCall, action.after p = c.after p) :
    ((onProgram i action).after w).Founded := by
  cases hp : w.programs[i]? with
  | none => exact (after_onProgram_none hp action).symm ▸ h
  | some p =>
    rw [after_onProgram hp]
    obtain ⟨c, hc⟩ := hcall p
    refine h.of_change rfl (fun _ _ hk _ => hk) (Array.getElem?_eq_some_iff.mp hp).1 ?_
    intro s hs hreflects hp'
    obtain ⟨hprogram, hblocks⟩ := c.build_after s
    have hsame : p = s.program := Option.some.inj (hp.symm.trans hreflects.program)
    refine ⟨s.after c.build, hs.call _, ?_, fun k placed hk hi => ?_, hreflects.apart⟩
    · rw [hp', hc, hprogram, hsame]
    · rw [hblocks]
      exact hreflects.blocks k placed hk hi

/-- A call to a block is a call of the build of its program. -/
theorem founded_onBlock {α : Type} (h : w.Founded) (k : Nat) {action : Action Worksite α}
    (hcall : ∀ s, ∃ c : SiteCall, action.after s = c.after s) :
    ((onBlock k action).after w).Founded := by
  rcases after_onBlock_cases w k action with hsame | ⟨placed, p, hk, hp⟩
  · exact hsame.symm ▸ h
  · rw [after_onBlock hk hp]
    obtain ⟨c, hc⟩ := hcall ⟨placed.block, p⟩
    rw [hc]
    refine h.of_change rfl (fun k' placed' hk' hne => ?_) (h.named k placed hk)
      fun s hs hreflects hp' => ?_
    · rw [Array.getElem?_setIfInBounds] at hk'
      split at hk'
      · split at hk'
        · cases hk'
          exact absurd rfl hne
        · cases hk'
      · exact hk'
    · have hsame : p = s.program := Option.some.inj (hp.symm.trans hreflects.program)
      subst hsame
      obtain ⟨calls, hb⟩ := hreflects.blocks k placed hk rfl
      obtain ⟨hprogram, calls', hblocks⟩ := c.build_after hb
      have hs' := hs.call (c.build placed.block.id)
      have hnumber : (c.after ⟨placed.block, s.program⟩).block.id = placed.block.id := by
        refine hs'.sound.numbered placed.block.id ⟨_, calls'⟩ ?_
        rw [hblocks, List.getElem?_set_self (List.getElem?_eq_some_iff.mp hb).1]
      exact ⟨_, hs', hreflects.worked hk rfl hnumber (hp'.trans (congrArg some hprogram.symm)) rfl
        hblocks⟩

/-- A block that is opened in a program is the next block of its build. -/
theorem founded_openBlock (h : w.Founded) (i : Nat) (capacity : Int) :
    ((openBlock i capacity).after w).Founded := by
  cases hp : w.programs[i]? with
  | none => exact (after_openBlock_none hp capacity).symm ▸ h
  | some p =>
    have hi : i < w.programs.size := (Array.getElem?_eq_some_iff.mp hp).1
    rw [after_openBlock hp]
    cases hopen : Program.openBlock capacity p with
    | error failure p' =>
      obtain rfl := Program.openBlock_error hopen
      refine h.of_change rfl (fun _ _ hk _ => hk) hi fun s hs hreflects hp' => ⟨s, hs, ?_, ?_, ?_⟩
      · exact hp'.trans (hp.symm.trans hreflects.program)
      · exact hreflects.blocks
      · exact hreflects.apart
    | ok block p' =>
      refine h.of_change rfl (fun k placed hk hne => ?_) hi fun s hs hreflects hp' => ?_
      · rw [Array.getElem?_push] at hk
        split at hk
        · cases hk
          exact absurd rfl hne
        · exact hk
      · have hsame : p = s.program := Option.some.inj (hp.symm.trans hreflects.program)
        subst hsame
        have hs' := hs.call (.openBlock capacity)
        have hafter : s.after (.openBlock capacity) =
            { s with program := p', blocks := s.blocks ++ [{ block }] } := by
          simp only [Build.after, hopen]
        rw [hafter] at hs'
        have hnumber : block.id = s.blocks.length :=
          hs'.sound.numbered _ { block } List.getElem?_concat_length
        exact ⟨_, hs', hreflects.opened hnumber hp' rfl rfl⟩

/-- **A step in a workspace is at most a call of one build.** -/
theorem Founded.step (h : w.Founded) (hstep : Step w w') : w'.Founded := by
  cases hstep with
  | addBuffer base capacity =>
    refine h.of_sameSites ?_
    unfold after addBuffer
    cases Buffer.new base capacity <;> exact ⟨rfl, rfl⟩
  | addMemory size stack =>
    refine h.of_sameSites ?_
    unfold after addMemory
    cases Memory.new size stack <;> exact ⟨rfl, rfl⟩
  | addProgram dataBase dataCells => exact founded_addProgram h dataBase dataCells
  | addProcessor memory stepLimit => exact h.of_sameSites ⟨rfl, rfl⟩
  | openBlock program capacity => exact founded_openBlock h program capacity
  | openEmission mode symbols? _ => exact h.of_sameSites (openEmission_sameSites w mode _ symbols?)
  | onBuffer i action => exact h.of_sameSites (onBuffer_same w i action).2
  | onMemory i _ => exact h.of_sameSites (onMemory_sameSites w i _)
  | onLease i id _ => exact h.of_sameSites (onMemory_sameSites w i _)
  | onEmission k _ => exact h.of_sameSites (onEmission_sameSites w k _)
  | onMachine k _ => exact h.of_sameSites (onMachine_sameSites w k _)
  | patch i patches => exact h.of_sameSites (onMemory_sameSites w i _)
  | onProgram i hcall => exact founded_onProgram h i hcall
  | onBlock k hcall => exact founded_onBlock h k hcall

/-! ### What comes about -/

/-- Whatever comes about in a workspace is founded. -/
theorem Reachable.founded (hw : w.Reachable) : w.Founded := by
  induction hw with
  | new =>
    refine ⟨fun i hi => absurd hi (Nat.not_lt_zero i), ?_⟩
    intro k placed hk
    cases hk
  | step _ hstep ih => exact ih.step hstep

/-- **Every program of a workspace is that of a build**, which has its blocks under their
numbers. -/
theorem Reachable.build (hw : w.Reachable) {i : Nat} {p : Program} (hp : w.programs[i]? = some p) :
    ∃ s : Build, s.Reachable ∧ s.program = p ∧ w.Reflects i s := by
  obtain ⟨s, hs, hreflects⟩ := hw.founded.builds i (Array.getElem?_eq_some_iff.mp hp).1
  exact ⟨s, hs, Option.some.inj (hreflects.program.symm.trans hp), hreflects⟩

end Workspace

end CellMachine
