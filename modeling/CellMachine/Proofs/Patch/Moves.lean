import CellMachine.Proofs.Memory.Estate
import CellMachine.Proofs.Patch.Body

/-!
# Patches are made of moves

A patch opens a lease, opens an emission on it, calls the emission and closes the lease. All of this
can be done by a party of an estate, step by step, while the others rest. So a memory that was
patched is one that can come about on an estate, and what holds there holds of it.

* `Estate.AtWork` — a new party of an estate is at work on an emission, and the old ones rest.
* `Patch.write_preserves` — a body is calls to an emission, which such a party makes.
* `Patch.apply_reachable`, `Patched.applyAll_reachable` — **a patched memory is one that can come
  about**, with all parties that were there.
-/

namespace CellMachine

open CellMachine.Action

namespace Estate

/-- A party of an estate that can come about is at work on an emission. It came to the parties of
before, which rest. -/
def AtWork (old : List Tenant) (e : Emission Leasehold) : Prop :=
  ∃ (w : Estate) (index : Nat) (t : Tenant), w.Reachable ∧ old <+: w.tenants ∧
    old.length ≤ index ∧ w.tenants[index]? = some t ∧ t.emission w.memory = e

variable {old : List Tenant} {e : Emission Leasehold}

/-- A call to the emission leaves the party at work. -/
theorem AtWork.call (h : AtWork old e) (c : EmissionCall) : AtWork old (c.after e) := by
  obtain ⟨w, index, t, hw, hold, hindex, ht, rfl⟩ := h
  obtain ⟨l, s, hhoused⟩ := hw.sound.housed t (List.mem_of_getElem? ht)
  have hlease : (c.after (t.emission w.memory)).region.lease = t.lease :=
    (Tenant.fits_call hw.sound.tables hhoused c).region.same_lease
  have hafter := after_tenant ht c
  refine ⟨w.after (.tenant index c), index,
    { t with context := (c.after (t.emission w.memory)).context }, hw.move _, ?_, hindex, ?_, ?_⟩
  · rw [hafter]
    obtain ⟨more, hmore⟩ := hold
    show old <+: w.tenants.set index _
    rw [← hmore, List.set_append_right _ _ hindex]
    exact List.prefix_append old _
  · rw [hafter]
    exact List.getElem?_set_self (List.getElem?_eq_some_iff.mp ht).1
  · rw [hafter]
    show Emission.mk _ (Leasehold.mk t.lease _) = _
    rw [← hlease]
    rfl

/-- What the emission sees is the memory of an estate that can come about. -/
theorem AtWork.reachable (h : AtWork old e) :
    ∃ w : Estate, w.Reachable ∧ w.memory = e.region.memory ∧ old <+: w.tenants := by
  obtain ⟨w, index, t, hw, hold, -, -, rfl⟩ := h
  exact ⟨w, hw, rfl, hold⟩

end Estate

namespace Patch

/-- A statement is calls to an emission, and preserves what all of them preserve. -/
theorem statement_preserves {P : Emission Leasehold → Prop}
    (hP : ∀ (c : EmissionCall) {e}, P e → P (c.after e)) (symbols? : Option SymbolTable)
    (st : Statement) : Preserves P (Emission.statement symbols? st) := by
  rw [Emission.statement_eq]
  refine .bind ?_ fun _ => ?_
  · cases st.label? with
    | none => exact .pure ()
    | some name => exact fun e h => hP (.add (.label name)) h
  · cases st.op? with
    | none => exact .pure ()
    | some op =>
      refine .bind (.ofExcept _) fun operands => ?_
      exact fun e h => hP (.add (.emit symbols? op operands)) h

/-- A body is emitted and sealed by calls to an emission, and preserves what all of them
preserve. -/
theorem write_preserves {P : Emission Leasehold → Prop}
    (hP : ∀ (c : EmissionCall) {e}, P e → P (c.after e)) (p : Patch) (symbols : SymbolTable) :
    Preserves P (p.write symbols) := by
  have hbody : (body : List Statement) →
      Preserves P (Emission.statements (some symbols) body) := by
    intro body
    induction body with
    | nil => exact .pure ()
    | cons st rest ih => exact .bind (at_preserves (statement_preserves hP _ st) st.pos) fun _ => ih
  refine .bind (hbody p.body) fun _ => at_preserves ?_ p.pos
  intro e h
  have hfinal := hP .finalize h
  unfold EmissionCall.after after at hfinal
  unfold after
  cases hresult : Emission.finalize e with
  | ok routine e' => simpa only [hresult] using hfinal
  | error cause e' => simpa only [hresult] using hfinal

/-- A lease can be given up on every estate. -/
theorem exists_release {w : Estate} (hw : w.Reachable) {h : Leasehold} (hm : w.memory = h.memory) :
    ∃ w' : Estate, w'.Reachable ∧ w'.memory = (Leasehold.release.after h).memory ∧
      w'.tenants = w.tenants := by
  refine ⟨w.after (.lease h.lease .release), hw.move _, ?_, rfl⟩
  show (LeaseCall.release.after { lease := h.lease, memory := w.memory }).memory = _
  rw [hm]
  rfl

/-- A patch is given up by the party at work. -/
theorem exists_abandon {old : List Tenant} {e : Emission Leasehold} (h : Estate.AtWork old e)
    (failure : Failure) : ∃ w : Estate, w.Reachable ∧
      w.memory = (abandon failure e).2.memory ∧ old <+: w.tenants := by
  unfold abandon
  by_cases hcursor : e.context.cursor = 0
  · rw [if_pos hcursor]
    obtain ⟨w, hw, hm, hold⟩ := h.reachable
    obtain ⟨w', hw', hm', htenants⟩ := exists_release hw hm
    refine ⟨w', hw', hm'.trans ?_, htenants ▸ hold⟩
    unfold after
    cases Leasehold.release e.region <;> rfl
  · rw [if_neg hcursor]
    obtain ⟨w, hw, hm, hold⟩ := (h.call .discard).reachable
    refine ⟨w, hw, hm.trans ?_, hold⟩
    show (Emission.discard.after e).region.memory = _
    unfold after
    cases Emission.discard e <;> rfl

/-- A region is overwritten by a party of the estate. -/
theorem overwrite_reachable {w : Estate} (hw : w.Reachable) {id : Nat}
    (hid : id < w.memory.leases.size) (p : Patch) (symbols : SymbolTable) :
    ∃ w' : Estate, w'.Reachable ∧
      w'.memory = ((p.overwrite symbols).after (Leasehold.mk id w.memory)).memory ∧
      w.tenants <+: w'.tenants := by
  have hoccupy := hw.move (.occupy .dynamic id)
  unfold after overwrite
  cases hopen : Context.openDynamic (Leasehold.mk id w.memory) with
  | error cause h =>
    have hmemory : (w.after (.occupy .dynamic id)).memory = h.memory := by
      simp only [Estate.after, if_pos hid, Estate.occupied, Workspace.freshContext, hopen]
    have hnone : (w.after (.occupy .dynamic id)).tenants = w.tenants := by
      simp only [Estate.after, if_pos hid, Estate.occupied, Workspace.freshContext, hopen]
    obtain ⟨w', hw', hm', htenants⟩ := exists_release hoccupy hmemory
    refine ⟨w', hw', hm'.trans ?_, (htenants.trans hnone) ▸ List.prefix_rfl⟩
    unfold after
    cases hrelease : Leasehold.release h <;> simp only [hrelease]
  | ok context h =>
    have hoccupied : w.after (.occupy .dynamic id) = _ := Estate.after_occupy hid hopen
    have hlease : h.lease = id := by
      have hafter := Estate.freshContext_after .dynamic (Leasehold.mk id w.memory)
      rw [after_of_ok (show Workspace.freshContext .dynamic _ = .ok context h from hopen)] at hafter
      rcases hafter with rfl | rfl
      · rfl
      · exact LeaseCall.lease_after .attest _
    have hwork : Estate.AtWork w.tenants { context, region := h } := by
      refine ⟨_, w.tenants.length, { lease := id, mode := .dynamic, context }, hoccupy, ?_,
        Nat.le_refl _, ?_, ?_⟩
      · rw [hoccupied]
        exact List.prefix_append w.tenants _
      · rw [hoccupied]
        exact List.getElem?_concat_length
      · rw [hoccupied, ← hlease]
        rfl
    have hwritten := write_preserves (fun c _ h => h.call c) p symbols _ hwork
    cases hrun : p.write symbols { context, region := h } with
    | ok routine e =>
      rw [after_of_ok hrun] at hwritten
      simpa only [hrun] using hwritten.reachable
    | error failure e =>
      rw [after_of_error hrun] at hwritten
      simpa only [hrun] using exists_abandon hwritten failure

/-- A lease that was opened is one of the memory. -/
theorem lt_of_openLease {s : Span} {m m' : Memory} {id : Nat}
    (h : Memory.openLease s m = .ok id m') : id < m'.leases.size := by
  rw [Memory.openLease_eq] at h
  split at h
  · cases h
  · split at h
    · cases h
    · cases h
      show m.leases.size < (m.leases.push _).size
      rw [Array.size_push]
      exact Nat.lt_succ_self _

/-- The lease of a patch is one of the memory. -/
theorem lt_of_lease {target : PatchTarget} {m m' : Memory} {id : Nat}
    (h : lease target m = .ok id m') : id < m'.leases.size := by
  cases target with
  | region name =>
    have hget : (EStateM.get : Action Memory Memory) m = .ok m m := rfl
    unfold lease Memory.leaseNamed at h
    simp only [bind_of_ok hget] at h
    cases hs : m.spanNamed? name with
    | none =>
      simp only [hs] at h
      cases h
    | some s =>
      simp only [hs] at h
      exact lt_of_openLease h
  | range base capacity =>
    change Memory.leaseAt base capacity m = .ok id m' at h
    rw [Memory.leaseAt_eq] at h
    split at h
    · cases h
    · split at h
      · obtain ⟨s, m₁, -, h⟩ := ok_of_bind h
        exact lt_of_openLease h
      · split at h
        · cases h
        · exact lt_of_openLease h

/-- **A patched memory is one that can come about**, whether the patch succeeds or fails. -/
theorem apply_reachable {w : Estate} (hw : w.Reachable) (p : Patch) :
    ∃ w' : Estate, w'.Reachable ∧ w'.memory = p.apply.after w.memory ∧
      w.tenants <+: w'.tenants := by
  have hleased : ∃ w₁ : Estate, w₁.Reachable ∧ w₁.memory = (lease p.target).after w.memory ∧
      w₁.tenants = w.tenants := by
    cases p.target with
    | region name => exact ⟨_, hw.move (.memory (.leaseNamed name)), rfl, rfl⟩
    | range base capacity => exact ⟨_, hw.move (.memory (.leaseAt base capacity)), rfl, rfl⟩
  obtain ⟨w₁, hw₁, hm₁, htenants⟩ := hleased
  cases hlease : lease p.target w.memory with
  | error failure m' =>
    rw [after_of_error hlease] at hm₁
    rw [after_of_error (apply_of_refused hlease)]
    exact ⟨w₁, hw₁, hm₁, htenants ▸ List.prefix_rfl⟩
  | ok id m' =>
    rw [after_of_ok hlease] at hm₁
    have hid : id < w₁.memory.leases.size := by
      rw [hm₁]
      exact lt_of_lease hlease
    obtain ⟨w', hw', hm', hold⟩ :=
      overwrite_reachable hw₁ hid p (Memory.globalSymbol w.memory.addresses)
    refine ⟨w', hw', hm'.trans ?_, htenants ▸ hold⟩
    unfold after
    rw [apply_of_lease hlease, hm₁]
    cases p.overwrite (Memory.globalSymbol w.memory.addresses) (Leasehold.mk id m') <;> rfl

end Patch

/-- **So is a memory after patches**, up to the first that fails. -/
theorem Patched.applyAll_reachable (patches : List Patch) {w : Estate} (hw : w.Reachable)
    {s : Patched} (hs : s.memory = w.memory) :
    ∃ w' : Estate, w'.Reachable ∧ w'.memory = ((applyAll patches).after s).memory ∧
      w.tenants <+: w'.tenants := by
  induction patches generalizing w s with
  | nil => exact ⟨w, hw, hs.symm, List.prefix_rfl⟩
  | cons p rest ih =>
    obtain ⟨w₁, hw₁, hm₁, hold⟩ := p.apply_reachable hw
    rw [← hs] at hm₁
    cases hrun : p.apply s.memory with
    | error failure m =>
      have hfirst : apply p s = .error failure { s with memory := m } := by
        unfold apply
        rw [hrun]
      have hall : applyAll (p :: rest) s = .error failure { s with memory := m } :=
        bind_of_error hfirst
      rw [after_of_error hrun] at hm₁
      rw [after_of_error hall]
      exact ⟨w₁, hw₁, hm₁, hold⟩
    | ok routine m =>
      have hfirst : apply p s = .ok () { memory := m, done := s.done.push routine } := by
        unfold apply
        rw [hrun]
      have hall : applyAll (p :: rest) s = applyAll rest _ := bind_of_ok hfirst
      rw [after_of_ok hrun] at hm₁
      obtain ⟨w', hw', hm', hmore⟩ :=
        ih hw₁ (s := { memory := m, done := s.done.push routine }) hm₁.symm
      rw [after_congr hall]
      exact ⟨w', hw', hm', hold.trans hmore⟩

end CellMachine
