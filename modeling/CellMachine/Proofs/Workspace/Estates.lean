import CellMachine.Proofs.Workspace.Steps

/-!
# Every memory of a workspace is that of an estate

A workspace may hold many memories, and an emission on one of them says by two indices on which
lease it was opened. Whatever happens, each memory goes its own way: it is the memory of an estate,
the emissions on its leases are tenants of the estate, and what is done through a reference is a
move on it. So what holds of all estates holds of all memories of a workspace.

* `Workspace.Lets` — an emission on a lease of a memory.
* `Workspace.Mirrors` — an estate with the memory and these emissions; two emissions are never one
  tenant.
* `Workspace.Settled.step` — **a step in a workspace is moves on its estates.**
* `Workspace.Reachable.estate` — **every memory of a workspace is that of an estate.**
-/

namespace CellMachine

open CellMachine.Action

namespace Workspace

/-! ### Emissions on the leases of a memory -/

/-- The emission `k` was opened on the lease `id` of the memory `i`, and this is its context. -/
def Lets (w : Workspace) (i k id : Nat) (context : Context) : Prop :=
  ∃ opened, w.emissions[k]? = some opened ∧ opened.region = .lease i id ∧ opened.context = context

variable {w w' : Workspace} {i j k id : Nat} {context : Context} {opened : OpenedEmission}

/-- Emissions on leases are told from the emissions alone. -/
theorem lets_congr (h : w'.emissions = w.emissions) :
    w'.Lets i k id context ↔ w.Lets i k id context := by
  unfold Lets
  rw [h]

/-- An emission whose context has changed is on the same lease, and all others are as they were. -/
theorem lets_set (hk : w.emissions[k]? = some opened) {new : Context}
    (h : w'.emissions = w.emissions.setIfInBounds k { opened with context := new }) {k' : Nat} :
    w'.Lets i k' id context ↔
      if k' = k then opened.region = .lease i id ∧ new = context else w.Lets i k' id context := by
  have hsize : k < w.emissions.size := (Array.getElem?_eq_some_iff.mp hk).1
  unfold Lets
  rw [h, Array.getElem?_setIfInBounds]
  by_cases hsame : k' = k
  · rw [if_pos hsame, if_pos hsame.symm, if_pos hsize]
    simp
  · rw [if_neg hsame, if_neg (Ne.symm hsame)]

/-- A new emission is on the lease of its region, and all others are as they were. -/
theorem lets_push (h : w'.emissions = w.emissions.push opened) {k' : Nat} :
    w'.Lets i k' id context ↔
      if k' = w.emissions.size then opened.region = .lease i id ∧ opened.context = context
      else w.Lets i k' id context := by
  unfold Lets
  rw [h, Array.getElem?_push]
  by_cases hsame : k' = w.emissions.size
  · rw [if_pos hsame, if_pos hsame]
    simp
  · rw [if_neg hsame, if_neg hsame]

/-! ### Estates of memories -/

/-- The memory `i` of the workspace is that of an estate, on which every emission on one of its
leases has a place as a tenant. -/
structure Mirrors (w : Workspace) (i : Nat) (e : Estate) (place : Nat → Nat) : Prop where
  memory : w.memories[i]? = some e.memory
  tenants : ∀ k id context, w.Lets i k id context →
    ∃ mode, e.tenants[place k]? = some ⟨id, mode, context⟩
  apart : ∀ k k' id id' context context', w.Lets i k id context → w.Lets i k' id' context' →
    place k = place k' → k = k'

variable {e e' : Estate} {place : Nat → Nat}

/-- The tenants that were there have their places, also if others have come. -/
theorem Mirrors.of_prefix (h : w.Mirrors i e place) (hmemory : w'.memories[i]? = some e'.memory)
    (htenants : e.tenants <+: e'.tenants)
    (hlets : ∀ k id context, w'.Lets i k id context → w.Lets i k id context) :
    w'.Mirrors i e' place where
  memory := hmemory
  tenants k id context hk := by
    obtain ⟨mode, ht⟩ := h.tenants k id context (hlets k id context hk)
    obtain ⟨more, hmore⟩ := htenants
    refine ⟨mode, ?_⟩
    rw [← hmore, List.getElem?_append_left (List.getElem?_eq_some_iff.mp ht).1]
    exact ht
  apart k k' id id' context context' hk hk' :=
    h.apart k k' id id' context context' (hlets k id context hk) (hlets k' id' context' hk')

/-- A new emission on a lease is a new tenant. -/
theorem Mirrors.occupied (h : w.Mirrors i e place) (mode : Mode)
    (hmemory : w'.memories[i]? = some e'.memory)
    (htenants : e'.tenants = e.tenants ++ [⟨id, mode, opened.context⟩])
    (hregion : opened.region = .lease i id) (hemissions : w'.emissions = w.emissions.push opened) :
    w'.Mirrors i e' (Function.update place w.emissions.size e.tenants.length) := by
  have hold : ∀ {k id context}, w.Lets i k id context → place k < e.tenants.length := by
    intro k id context hk
    obtain ⟨mode, ht⟩ := h.tenants k id context hk
    exact (List.getElem?_eq_some_iff.mp ht).1
  refine ⟨hmemory, ?_, ?_⟩
  · intro k id' context hk
    rw [lets_push hemissions] at hk
    by_cases hnew : k = w.emissions.size
    · rw [if_pos hnew, hregion] at hk
      obtain ⟨hsame, rfl⟩ := hk
      cases hsame
      refine ⟨mode, ?_⟩
      rw [hnew, Function.update_self, htenants]
      exact List.getElem?_concat_length
    · rw [if_neg hnew] at hk
      obtain ⟨mode', ht⟩ := h.tenants k id' context hk
      refine ⟨mode', ?_⟩
      rw [Function.update_of_ne hnew, htenants, List.getElem?_append_left (hold hk)]
      exact ht
  · intro k k' id₁ id₂ context context' hk hk' hplace
    rw [lets_push hemissions] at hk hk'
    by_cases hnew : k = w.emissions.size
    · by_cases hnew' : k' = w.emissions.size
      · rw [hnew, hnew']
      · rw [if_neg hnew'] at hk'
        rw [hnew, Function.update_self, Function.update_of_ne hnew'] at hplace
        exact absurd hplace (Nat.ne_of_gt (hold hk'))
    · rw [if_neg hnew] at hk
      by_cases hnew' : k' = w.emissions.size
      · rw [hnew', Function.update_self, Function.update_of_ne hnew] at hplace
        exact absurd hplace (Nat.ne_of_lt (hold hk))
      · rw [if_neg hnew'] at hk'
        rw [Function.update_of_ne hnew, Function.update_of_ne hnew'] at hplace
        exact h.apart k k' id₁ id₂ context context' hk hk' hplace

/-- An emission that has worked is the tenant that has worked. -/
theorem Mirrors.worked (h : w.Mirrors i e place) (hk : w.emissions[k]? = some opened)
    (hregion : opened.region = .lease i id) (mode : Mode) {new : Context}
    (hmemory : w'.memories[i]? = some e'.memory)
    (htenants : e'.tenants = e.tenants.set (place k) ⟨id, mode, new⟩)
    (hemissions : w'.emissions = w.emissions.setIfInBounds k { opened with context := new }) :
    w'.Mirrors i e' place := by
  have hlets : w.Lets i k id opened.context := ⟨opened, hk, hregion, rfl⟩
  have hold : ∀ {k' id' context}, w'.Lets i k' id' context →
      ∃ context', w.Lets i k' id' context' := by
    intro k' id' context hk'
    rw [lets_set hk hemissions] at hk'
    by_cases hsame : k' = k
    · rw [if_pos hsame] at hk'
      exact ⟨opened.context, opened, hsame ▸ hk, hk'.1, rfl⟩
    · rw [if_neg hsame] at hk'
      exact ⟨context, hk'⟩
  refine ⟨hmemory, ?_, ?_⟩
  · intro k' id' context hk'
    rw [lets_set hk hemissions] at hk'
    by_cases hsame : k' = k
    · rw [if_pos hsame, hregion] at hk'
      obtain ⟨hid, rfl⟩ := hk'
      cases hid
      obtain ⟨mode', ht⟩ := h.tenants k id opened.context hlets
      refine ⟨mode, ?_⟩
      rw [hsame, htenants]
      exact List.getElem?_set_self (List.getElem?_eq_some_iff.mp ht).1
    · rw [if_neg hsame] at hk'
      obtain ⟨mode', ht⟩ := h.tenants k' id' context hk'
      refine ⟨mode', ?_⟩
      have hplace : place k ≠ place k' := fun heq =>
        hsame (h.apart k k' id id' opened.context context hlets hk' heq).symm
      rw [htenants, List.getElem?_set_ne hplace]
      exact ht
  · intro k₁ k₂ id₁ id₂ context₁ context₂ h₁ h₂
    obtain ⟨context₁', h₁⟩ := hold h₁
    obtain ⟨context₂', h₂⟩ := hold h₂
    exact h.apart k₁ k₂ id₁ id₂ context₁' context₂' h₁ h₂

/-! ### One step -/

/-- Every memory is that of an estate, and emissions are on leases of memories that are there. -/
structure Settled (w : Workspace) : Prop where
  estates : ∀ i < w.memories.size, ∃ e place, e.Reachable ∧ w.Mirrors i e place
  named : ∀ i k id context, w.Lets i k id context → i < w.memories.size

/-- The memories are the same, and there is no new emission on a lease. -/
theorem Settled.of_memories (h : w.Settled) (hmemories : w'.memories = w.memories)
    (hlets : ∀ i k id context, w'.Lets i k id context → w.Lets i k id context) : w'.Settled where
  estates i hi := by
    obtain ⟨e, place, he, hmirrors⟩ := h.estates i (hmemories ▸ hi)
    refine ⟨e, place, he, hmirrors.of_prefix ?_ List.prefix_rfl (hlets i)⟩
    rw [hmemories]
    exact hmirrors.memory
  named i k id context hk := hmemories ▸ h.named i k id context (hlets i k id context hk)

/-- Nothing happened to memories and emissions. -/
theorem Settled.of_sameLand (h : w.Settled) (hsame : w.SameLand w') : w'.Settled :=
  h.of_memories hsame.memories fun _ _ _ _ => (lets_congr hsame.emissions).mp

/-- One memory has changed, as an estate may change. -/
theorem Settled.of_change (h : w.Settled) {m' : Memory}
    (hmemories : w'.memories = w.memories.setIfInBounds j m')
    (hlets : ∀ i, i ≠ j → ∀ k id context, w'.Lets i k id context → w.Lets i k id context)
    (hnamed : ∀ k id context, w'.Lets j k id context → j < w.memories.size)
    (hchange : ∀ e place, e.Reachable → w.Mirrors j e place → w'.memories[j]? = some m' →
      ∃ e' place', e'.Reachable ∧ w'.Mirrors j e' place') : w'.Settled := by
  have hsize : w'.memories.size = w.memories.size := by rw [hmemories, Array.size_setIfInBounds]
  refine ⟨?_, ?_⟩
  · intro i hi
    rw [hsize] at hi
    obtain ⟨e, place, he, hmirrors⟩ := h.estates i hi
    by_cases hij : i = j
    · subst hij
      refine hchange e place he hmirrors ?_
      rw [hmemories, Array.getElem?_setIfInBounds_self_of_lt hi]
    · refine ⟨e, place, he, hmirrors.of_prefix ?_ List.prefix_rfl (hlets i hij)⟩
      rw [hmemories, Array.getElem?_setIfInBounds_ne (Ne.symm hij)]
      exact hmirrors.memory
  · intro i k id context hk
    rw [hsize]
    by_cases hij : i = j
    · subst hij
      exact hnamed k id context hk
    · exact h.named i k id context (hlets i hij k id context hk)

/-- One memory has changed by moves that leave the tenants where they are. -/
theorem Settled.of_moves (h : w.Settled) {m m' : Memory} (hm : w.memories[j]? = some m)
    (hmemories : w'.memories = w.memories.setIfInBounds j m')
    (hemissions : w'.emissions = w.emissions)
    (hmoves : ∀ e : Estate, e.Reachable → e.memory = m →
      ∃ e' : Estate, e'.Reachable ∧ e'.memory = m' ∧ e.tenants <+: e'.tenants) : w'.Settled := by
  have hlets : ∀ i k id context, w'.Lets i k id context → w.Lets i k id context :=
    fun _ _ _ _ => (lets_congr hemissions).mp
  refine h.of_change hmemories (fun i _ => hlets i)
    (fun k id context hk => h.named j k id context (hlets j k id context hk)) ?_
  intro e place he hmirrors hm'
  obtain ⟨e', he', hmemory, htenants⟩ :=
    hmoves e he (Option.some.inj (hmirrors.memory.symm.trans hm))
  exact ⟨e', place, he', hmirrors.of_prefix (hmemory ▸ hm') htenants (hlets j)⟩

/-- A call to a memory is a move on its estate. -/
theorem settled_onMemory {α : Type} (h : w.Settled) (i : Nat) {action : Action Memory α}
    (hcall : ∀ m, ∃ c : MemoryCall, action.after m = c.after m) :
    ((onMemory i action).after w).Settled := by
  cases hm : w.memories[i]? with
  | none => exact (after_onMemory_none hm action).symm ▸ h
  | some m =>
    rw [after_onMemory hm]
    obtain ⟨c, hc⟩ := hcall m
    refine h.of_moves hm rfl rfl fun e he hmemory => ⟨e.after (.memory c), he.move _, ?_, ?_⟩
    · rw [hc, ← hmemory]
      rfl
    · exact List.prefix_rfl

/-- A call to a lease is a move on the estate of its memory. -/
theorem settled_onLease {α : Type} (h : w.Settled) (i id : Nat) {action : Action Leasehold α}
    (hcall : ∀ h, ∃ c : LeaseCall, action.after h = c.after h) :
    ((onLease i id action).after w).Settled := by
  cases hm : w.memories[i]? with
  | none => exact (after_onMemory_none hm _).symm ▸ h
  | some m =>
    rw [after_onLease hm]
    obtain ⟨c, hc⟩ := hcall ⟨id, m⟩
    refine h.of_moves hm rfl rfl fun e he hmemory => ⟨e.after (.lease id c), he.move _, ?_, ?_⟩
    · rw [hc, ← hmemory]
      rfl
    · exact List.prefix_rfl

/-- A run of a machine is a move on the estate of its memory. -/
theorem settled_onMachine {α : Type} (h : w.Settled) (k : Nat) {action : Action Machine α}
    (hrun : ∀ M, ∃ target? args, action.after M = (Machine.invoke target? args).after M) :
    ((onMachine k action).after w).Settled := by
  rcases after_onMachine_cases w k action with hsame | ⟨placed, m, hk, hm⟩
  · exact hsame.symm ▸ h
  · rw [after_onMachine hk hm]
    obtain ⟨target?, args, hr⟩ := hrun ⟨placed.processor, m⟩
    refine h.of_moves hm rfl rfl fun e he hmemory =>
      ⟨e.after (.run placed.processor target? args), he.move _, ?_, ?_⟩
    · rw [hr, ← hmemory]
      rfl
    · exact List.prefix_rfl

/-- Patches are moves on the estate of their memory. -/
theorem settled_patch (h : w.Settled) (i : Nat) (patches : List Patch) :
    ((patch i patches).after w).Settled := by
  cases hm : w.memories[i]? with
  | none => exact (after_onMemory_none hm _).symm ▸ h
  | some m =>
    rw [after_patch hm]
    exact h.of_moves hm rfl rfl fun e he hmemory =>
      Patched.applyAll_reachable patches he (s := { memory := m }) hmemory.symm

/-- A new memory is that of a new estate. -/
theorem settled_addMemory (h : w.Settled) (size stack : Int) :
    ((addMemory size stack).after w).Settled := by
  cases hnew : Memory.new size stack with
  | error failure =>
    refine h.of_sameLand ?_
    unfold after addMemory
    rw [hnew]
    exact ⟨rfl, rfl⟩
  | ok m =>
    have hafter : (addMemory size stack).after w = { w with memories := w.memories.push m } := by
      unfold after addMemory
      rw [hnew]
    rw [hafter]
    refine ⟨fun i hi => ?_, fun i k id context hk => ?_⟩
    · by_cases hi' : i < w.memories.size
      · obtain ⟨e, place, he, hmirrors⟩ := h.estates i hi'
        refine ⟨e, place, he, hmirrors.of_prefix ?_ List.prefix_rfl fun _ _ _ hk => hk⟩
        rw [Array.getElem?_push, if_neg (Nat.ne_of_lt hi')]
        exact hmirrors.memory
      · rw [Array.size_push] at hi
        obtain rfl : i = w.memories.size := by omega
        have hnone : ∀ k id context, ¬w.Lets w.memories.size k id context :=
          fun k id context hk => Nat.lt_irrefl _ (h.named _ k id context hk)
        refine ⟨{ memory := m }, id, .new hnew, ?_, fun k id context hk => ?_,
          fun k k' id id' context context' hk => ?_⟩
        · rw [Array.getElem?_push, if_pos rfl]
        · exact absurd hk (hnone k id context)
        · exact absurd hk (hnone k id context)
    · rw [Array.size_push]
      exact Nat.lt_succ_of_lt (h.named i k id context hk)

/-- An emission at work is a tenant at work. -/
theorem settled_onEmission {α : Type} (h : w.Settled) (k : Nat)
    {action : {ρ : Type} → [Region ρ] → Option SymbolTable → Action (Emission ρ) α}
    (hcall : ∀ symbols? (e : Emission Leasehold), ∃ c : EmissionCall,
      (action symbols?).after e = c.after e) :
    ((onEmission (.opened k) action).after w).Settled := by
  cases hk : w.emissions[k]? with
  | none =>
    refine h.of_sameLand ?_
    unfold after onEmission
    dsimp only
    rw [hk]
    exact ⟨rfl, rfl⟩
  | some opened =>
    cases hregion : opened.region with
    | buffer j =>
      obtain ⟨hmemories, hsame | ⟨new, hset⟩⟩ := after_onEmission_buffer hk hregion action
      · exact h.of_sameLand ⟨hmemories, hsame⟩
      · refine h.of_memories hmemories fun i k' id context hk' => ?_
        rw [lets_set hk hset] at hk'
        split at hk'
        · rw [hregion] at hk'
          cases hk'.1
        · exact hk'
    | lease j id =>
      have hlets : w.Lets j k id opened.context := ⟨opened, hk, hregion, rfl⟩
      have hj : j < w.memories.size := h.named j k id opened.context hlets
      have hm := Array.getElem?_eq_getElem hj
      rw [after_onEmission_lease hk hregion hm]
      obtain ⟨c, hc⟩ := hcall (opened.symbols?.bind w.symbols?) ⟨opened.context, ⟨id, _⟩⟩
      rw [hc]
      refine h.of_change rfl (fun i hij k' id' context hk' => ?_) (fun _ _ _ _ => hj) ?_
      · rw [lets_set hk rfl, hregion] at hk'
        split at hk'
        · cases hk'.1
          exact absurd rfl hij
        · exact hk'
      · intro e place he hmirrors hm'
        obtain ⟨mode, ht⟩ := hmirrors.tenants k id opened.context hlets
        have hmemory := Option.some.inj (hm.symm.trans hmirrors.memory)
        have hafter := Estate.after_tenant ht c
        refine ⟨e.after (.tenant (place k) c), place, he.move _,
          hmirrors.worked hk hregion mode (hm'.trans ?_) ?_ rfl⟩
        · rw [hafter, hmemory]
          rfl
        · rw [hafter, hmemory]
          rfl

/-- An emission that is opened on a lease is a new tenant of the estate. -/
theorem settled_openEmission_lease (h : w.Settled) (mode : Mode) {m : Memory}
    (hm : w.memories[j]? = some m) (hid : id < m.leases.size) (symbols? : Option SymbolSource) :
    ((openEmission mode (some (.lease j id)) symbols?).after w).Settled := by
  have hj : j < w.memories.size := (Array.getElem?_eq_some_iff.mp hm).1
  cases hopen : freshContext mode (Leasehold.mk id m) with
  | error failure h' =>
    have hafter : (openEmission mode (some (.lease j id)) symbols?).after w =
        { w with memories := w.memories.setIfInBounds j h'.memory } := by
      have hfirst : onRegion (.lease j id) (freshContext mode) w =
          .error failure { w with memories := w.memories.setIfInBounds j h'.memory } := by
        unfold onRegion onLease onMemory
        simp only [hm, hopen]
      exact after_of_error (bind_of_error hfirst)
    rw [hafter]
    refine h.of_moves hm rfl rfl fun e he hmemory => ?_
    subst hmemory
    refine ⟨e.after (.occupy mode id), he.move _, ?_, ?_⟩
    · simp only [Estate.after, if_pos hid, Estate.occupied, hopen]
    · simp only [Estate.after, if_pos hid, Estate.occupied, hopen, List.prefix_rfl]
  | ok context h' =>
    have hafter : (openEmission mode (some (.lease j id)) symbols?).after w =
        { w with
          memories := w.memories.setIfInBounds j h'.memory
          emissions := w.emissions.push { context, region := .lease j id, symbols? } } := by
      have hfirst : onRegion (.lease j id) (freshContext mode) w =
          .ok context { w with memories := w.memories.setIfInBounds j h'.memory } := by
        unfold onRegion onLease onMemory
        simp only [hm, hopen]
      exact after_of_ok (bind_of_ok hfirst)
    rw [hafter]
    refine h.of_change rfl (fun i hij k id' context' hk => ?_) (fun _ _ _ _ => hj) ?_
    · rw [lets_push rfl] at hk
      split at hk
      · cases hk.1
        exact absurd rfl hij
      · exact hk
    · intro e place he hmirrors hm'
      have hmemory := Option.some.inj (hmirrors.memory.symm.trans hm)
      subst hmemory
      have hoccupy := Estate.after_occupy hid hopen
      refine ⟨e.after (.occupy mode id), _, he.move _, hmirrors.occupied mode ?_ ?_ rfl rfl⟩
      · rw [hm', hoccupy]
      · rw [hoccupy]

/-- An emission that is opened on a buffer is none on a lease. -/
theorem settled_openEmission_buffer (h : w.Settled) (mode : Mode) (j : Nat)
    (symbols? : Option SymbolSource) :
    ((openEmission mode (some (.buffer j)) symbols?).after w).Settled := by
  have hsame := (onBuffer_same w j (freshContext mode)).1
  cases hopen : onBuffer j (freshContext mode) w with
  | error failure w' =>
    rw [after_of_error hopen] at hsame
    have hfirst : onRegion (.buffer j) (freshContext mode) w = .error failure w' := hopen
    have hafter : (openEmission mode (some (.buffer j)) symbols?).after w = w' :=
      after_of_error (bind_of_error hfirst)
    exact hafter ▸ h.of_sameLand hsame
  | ok context w' =>
    rw [after_of_ok hopen] at hsame
    have hfirst : onRegion (.buffer j) (freshContext mode) w = .ok context w' := hopen
    have hafter : (openEmission mode (some (.buffer j)) symbols?).after w =
        { w' with emissions := w'.emissions.push { context, region := .buffer j, symbols? } } :=
      after_of_ok (bind_of_ok hfirst)
    rw [hafter]
    refine (h.of_sameLand hsame).of_memories rfl fun i k id context' hk => ?_
    rw [lets_push rfl] at hk
    split at hk
    · cases hk.1
    · exact hk

/-- **A step in a workspace is moves on its estates.** -/
theorem Settled.step (h : w.Settled) (hstep : Step w w') : w'.Settled := by
  cases hstep with
  | addBuffer base capacity =>
    refine h.of_sameLand ?_
    unfold after addBuffer
    cases Buffer.new base capacity <;> exact ⟨rfl, rfl⟩
  | addMemory size stack => exact settled_addMemory h size stack
  | addProgram dataBase dataCells =>
    refine h.of_sameLand ?_
    unfold after addProgram
    cases Program.new dataBase dataCells <;> exact ⟨rfl, rfl⟩
  | addProcessor memory stepLimit => exact h.of_sameLand ⟨rfl, rfl⟩
  | openBlock program capacity =>
    have hsame := onProgram_sameLand w program (Program.openBlock capacity)
    cases hopen : onProgram program (Program.openBlock capacity) w with
    | error failure w' =>
      rw [after_of_error hopen] at hsame
      exact after_of_error (bind_of_error hopen) ▸ h.of_sameLand hsame
    | ok block w' =>
      rw [after_of_ok hopen] at hsame
      have hafter : (openBlock program capacity).after w =
          { w' with blocks := w'.blocks.push { block, program } } :=
        after_of_ok (bind_of_ok hopen)
      exact hafter ▸ h.of_sameLand ⟨hsame.memories, hsame.emissions⟩
  | @openEmission mode region? symbols? hnames =>
    cases region? with
    | none => exact h.of_sameLand ⟨rfl, rfl⟩
    | some region =>
      cases region with
      | buffer j => exact settled_openEmission_buffer h mode j symbols?
      | lease j id =>
        obtain ⟨m, hm, hid⟩ := hnames _ rfl
        exact settled_openEmission_lease h mode hm hid symbols?
  | onBuffer i action => exact h.of_sameLand (onBuffer_same w i action).1
  | onMemory i hcall => exact settled_onMemory h i hcall
  | onLease i id hcall => exact settled_onLease h i id hcall
  | onEmission k hcall => exact settled_onEmission h k hcall
  | onMachine k hrun => exact settled_onMachine h k hrun
  | patch i patches => exact settled_patch h i patches
  | onProgram i _ => exact h.of_sameLand (onProgram_sameLand w i _)
  | onBlock k _ => exact h.of_sameLand (onBlock_sameLand w k _)

/-! ### What comes about -/

/-- Whatever comes about in a workspace is settled. -/
theorem Reachable.settled (hw : w.Reachable) : w.Settled := by
  induction hw with
  | new =>
    refine ⟨fun i hi => absurd hi (Nat.not_lt_zero i), ?_⟩
    rintro i k id context ⟨opened, hk, -⟩
    cases hk
  | step _ hstep ih => exact ih.step hstep

/-- **Every memory of a workspace is that of an estate**, whose tenants are the emissions on its
leases. -/
theorem Reachable.estate (hw : w.Reachable) {i : Nat} {m : Memory} (hm : w.memories[i]? = some m) :
    ∃ e place, e.Reachable ∧ e.memory = m ∧ w.Mirrors i e place := by
  obtain ⟨e, place, he, hmirrors⟩ :=
    hw.settled.estates i (Array.getElem?_eq_some_iff.mp hm).1
  exact ⟨e, place, he, Option.some.inj (hmirrors.memory.symm.trans hm), hmirrors⟩

/-- So the tables of every memory of a workspace agree. -/
theorem Reachable.tables (hw : w.Reachable) {i : Nat} {m : Memory} (hm : w.memories[i]? = some m) :
    m.Ordered ∧ m.Sound ∧ m.Indexed ∧ m.Listed := by
  obtain ⟨e, place, he, rfl, -⟩ := hw.estate hm
  exact ⟨he.sound.ordered, he.sound.tables, he.tables⟩

end Workspace

end CellMachine
