import CellMachine.Proofs.Emission.Reports
import CellMachine.Proofs.Patch.Blocks
import CellMachine.Proofs.Patch.Body

/-!
# What a patch reports about labels

A patch whose statements name their labels never fails for the name of a label, whatever the memory
is: leases are refused for other reasons, and so is everything that an emission does to its lease.

* `readPatches_unblaming`, `wellNamed_of_readPatches` — the same of the reading of patches, and what
  their bodies are made of.
* `Leasehold.unblaming` — a lease never blames the name of a label.
* `Emission.statements_unblaming` — neither do statements whose labels have names.
* `Patch.apply_unblaming` — **nor does a patch with such a body.**
-/

namespace CellMachine

open CellMachine.Action

/-! ### Reading -/

/-- A target that cannot be told. -/
theorem patchTarget_unblaming {args : List Arg} (h : ∀ arg ∈ args, ¬BadLabel arg.text.read) :
    Unblaming (patchTarget args) := by
  unfold patchTarget
  split
  · exact .map (Arg.name_unblaming _) _
  · next first second =>
    exact .bind (Arg.number_unblaming (h first (by simp))) fun _ _ =>
      .bind (Arg.number_unblaming (h second (by simp))) fun _ _ => .ok _
  · exact .error rfl

/-- **A patch file that is refused** is refused for another reason than the name of a label. -/
theorem readPatches_unblaming (sts : List Statement) (h : ∀ st ∈ sts, st.WellNamed)
    (open? : Option Patch) : Unblaming (readPatches open? sts) := by
  induction sts generalizing open? with
  | nil =>
    cases open? with
    | none => exact .ok []
    | some p => exact .error rfl
  | cons st rest ih =>
    have hrest := ih fun st' hst' => h st' (List.mem_cons_of_mem st hst')
    cases open? with
    | none =>
      simp only [readPatches]
      split
      · exact .error rfl
      · split
        · exact .error rfl
        · split
          · next cause hcause =>
            have hcause : cause.blamesLabel = false :=
              patchTarget_unblaming (h st (List.mem_cons_self ..)).args cause hcause
            exact .error hcause
          · exact hrest _
      · exact .error rfl
      · next hp => cases hp
      · exact .error rfl
      · next hp _ _ => cases hp
    | some p =>
      simp only [readPatches]
      split
      · exact .error rfl
      · next hp => cases hp
      · exact .error rfl
      · exact .map (hrest none) _
      · exact .error rfl
      · exact .ite (fun _ => .error rfl) fun _ => hrest _

/-- A label that has a name has one on a line of its own. -/
theorem Statement.WellNamed.labelLine {st : Statement} (h : st.WellNamed) :
    ∀ line ∈ st.labelLine, line.WellNamed := by
  intro line hline
  unfold Statement.labelLine at hline
  split at hline
  · cases hline
  · next label hlabel =>
    obtain rfl := List.mem_singleton.mp hline
    exact ⟨fun name hname => h.label name (hlabel.trans hname), nofun, nofun⟩

/-- The bodies of patches are made of statements of their file, and of labels. -/
theorem wellNamed_of_readPatches {sts : List Statement} (h : ∀ st ∈ sts, st.WellNamed)
    {ps : List Patch} (hread : readPatches none sts = .ok ps) {p : Patch} (hp : p ∈ ps) :
    ∀ st ∈ p.body, st.WellNamed := by
  obtain ⟨blocks, rfl⟩ := (blocks_of_readPatches sts).1 hread
  rw [readPatches_blocks] at hread
  cases hread
  obtain ⟨b, hb, rfl⟩ := List.mem_map.mp hp
  have hblock : ∀ st ∈ b.statements, st.WellNamed := fun st hst =>
    h st (List.mem_flatMap.mpr ⟨b, hb, hst⟩)
  intro st hst
  rcases List.mem_append.mp hst with hinner | hlabel
  · exact hblock st (by simp [PatchBlock.statements, hinner])
  · exact (hblock b.last (by simp [PatchBlock.statements])).labelLine st hlabel

/-! ### Leases -/

namespace Memory

/-- A region that cannot be made. -/
theorem register_unblaming (name : String) (base : Addr) (capacity : Int64) :
    (register name base capacity).Unblaming := by
  intro m failure m' h
  unfold register at h
  split at h
  · cases h
    rfl
  · dsimp only at h
    split at h
    · cases h
      rfl
    · cases h

/-- A lease that is refused. -/
theorem openLease_unblaming (s : Span) : (openLease s).Unblaming := by
  intro m failure m' h
  unfold openLease at h
  split at h
  · cases h
    rfl
  · split at h
    · cases h
      rfl
    · cases h

end Memory

/-- A lease that a patch does not get. -/
theorem Patch.lease_unblaming (target : PatchTarget) : (lease target).Unblaming := by
  cases target with
  | region name =>
    refine .bind .get fun _ => ?_
    split
    · exact .throw rfl
    · exact Memory.openLease_unblaming _
  | range base capacity =>
    refine .bind .get fun _ => .refuse rfl ?_
    split
    · exact .bind (Memory.register_unblaming "" base capacity) Memory.openLease_unblaming
    · exact .refuse rfl (Memory.openLease_unblaming _)

namespace Leasehold

/-- What depends on the lease and its region. -/
theorem withParts_unblaming {α : Type} {action : Lease → Span → Action Leasehold α}
    (h : ∀ lease span, (action lease span).Unblaming) : (withParts action).Unblaming := by
  intro s failure s' hs
  unfold withParts at hs
  split at hs
  · exact h _ _ s failure s' hs
  · cases hs
    rfl

/-- A cell that cannot be written. -/
theorem put_unblaming (a : Addr) (v : Cell) : (onMemory (Memory.put a v)).Unblaming := by
  intro s failure s' hs
  unfold onMemory Memory.put at hs
  split at hs
  · cases hs
  · next hput =>
    cases hs
    split at hput
    · cases hput
    · cases hput
      rfl

/-- **A lease never blames the name of a label.** -/
theorem unblaming : Region.Unblaming Leasehold where
  store _ v := withParts_unblaming fun _ _ =>
    .bind .get fun _ => .refuse rfl <| .bind (put_unblaming _ v) fun _ => .modify _
  attest := withParts_unblaming fun _ _ =>
    .bind .get fun _ => .refuse rfl <| .refuse rfl <| .refuse rfl <| .modify _
  sealUp _ := withParts_unblaming fun _ _ => .refuse rfl <| .bind (.modify _) fun _ => .modify _
  poison := withParts_unblaming fun _ _ => .refuse rfl <| .bind (.modify _) fun _ => .modify _

end Leasehold

/-! ### Bodies -/

namespace Emission

variable {ρ : Type} [Region ρ] (hρ : Region.Unblaming ρ)

include hρ

/-- A statement whose labels have names. -/
theorem statement_unblaming {st : Statement} (h : st.WellNamed) (symbols? : Option SymbolTable) :
    (statement symbols? st : Action (Emission ρ) Unit).Unblaming := by
  rw [statement_eq]
  refine .bind ?_ fun _ => ?_
  · cases hlabel : st.label? with
    | none => exact .pure ()
    | some name => exact defineLabel_unblaming hρ (h.label name hlabel)
  · cases st.op? with
    | none => exact .pure ()
    | some op =>
      exact .ofExcept_bind h.operands fun _ hoperands =>
        emit_unblaming hρ (st.labelsNamed_of_operands hoperands) symbols? op

/-- **Statements whose labels have names.** -/
theorem statements_unblaming (symbols? : Option SymbolTable) : (sts : List Statement) →
    (∀ st ∈ sts, st.WellNamed) → (statements symbols? sts : Action (Emission ρ) Unit).Unblaming
  | [], _ => .pure ()
  | st :: rest, h =>
    .bind (.atPlace (statement_unblaming hρ (h st (List.mem_cons_self ..)) symbols?)
      (fun _ _ => id) st.pos) fun _ =>
      statements_unblaming symbols? rest fun st' hst' => h st' (List.mem_cons_of_mem st hst')

end Emission

/-! ### Patches -/

namespace Patch

variable {p : Patch}

/-- A body that is written. -/
theorem write_unblaming (h : ∀ st ∈ p.body, st.WellNamed) (symbols : SymbolTable) :
    (p.write symbols).Unblaming := by
  refine .bind (Emission.statements_unblaming Leasehold.unblaming _ p.body h) fun _ =>
    .atPlace ?_ (fun _ _ => id) p.pos
  intro e failure e' hrun
  dsimp only at hrun
  split at hrun
  · cases hrun
  · next cause _ hfinalize =>
    cases hrun
    exact Emission.finalize_unblaming Leasehold.unblaming e cause _ hfinalize

/-- A patch that is given up reports its failure, or a crash. -/
theorem abandon_unblaming {failure : Failure} (h : failure.blamesLabel = false)
    (e : Emission Leasehold) : (abandon failure e).1.blamesLabel = false := by
  unfold abandon
  split
  · split <;> exact h
  · split
    · exact h
    · next cause _ hdiscard =>
      dsimp only
      split
      · exact Emission.discard_unblaming Leasehold.unblaming e cause _ hdiscard
      · exact h

/-- A region that is overwritten. -/
theorem overwrite_unblaming (h : ∀ st ∈ p.body, st.WellNamed) (symbols : SymbolTable) :
    (p.overwrite symbols).Unblaming := by
  intro l failure l' hrun
  unfold overwrite at hrun
  split at hrun
  · next cause _ hopen =>
    have hcause : cause.blamesLabel = false := by
      unfold Context.openDynamic at hopen
      split at hopen
      · cases hopen
      · next refusal _ hattest =>
        cases hopen
        have hrefusal := Leasehold.unblaming.attest l refusal _ hattest
        simpa [Failure.blamesLabel, Failure.kinds] using hrefusal
    split at hrun <;> cases hrun <;> exact hcause
  · next context region hopen =>
    split at hrun
    · cases hrun
    · next cause e hwrite =>
      cases hrun
      exact abandon_unblaming (write_unblaming h symbols _ cause e hwrite) e

/-- **A patch whose labels have names** never fails for the name of a label. -/
theorem apply_unblaming (h : ∀ st ∈ p.body, st.WellNamed) : p.apply.Unblaming := by
  refine .bind .get fun _ => .bind (.atPlace (lease_unblaming p.target) (fun _ _ => id) p.pos)
    fun _ => ?_
  intro m failure m' hrun
  dsimp only at hrun
  split at hrun
  · cases hrun
  · next hoverwrite =>
    cases hrun
    exact overwrite_unblaming h _ _ failure _ hoverwrite

end Patch

end CellMachine
