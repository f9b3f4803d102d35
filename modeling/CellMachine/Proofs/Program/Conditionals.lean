import CellMachine.Proofs.Program.Detached

/-!
# Conditionals in blocks select branches

Calls to a block stand in branches, and branches in groups between `openIf` and `endIf`. Read as a
tree, a group contributes the first of its branches whose condition is true, or else its last
branch, or nothing. The block does not see the tree: it keeps four flags for each open level and
changes them call by call. Both come to the same.

* `CallTree`, `BranchTail` — calls with conditionals as a tree; `CallTree.calls` are the calls in
  their order, and `CallTree.selected` is what the tree contributes.
* `Worksite.passedOn` — what is passed on to the emission of the block along a run of calls.
* `Worksite.Yields` — the effect of a run: what is passed on, in what order, how many instructions
  are left out, and which levels are open in the end. Effects add up (`Yields.append`).
* `CallTree.yields` — **the effect of the calls of a tree is that of its reading**, by recursion
  over the tree. A level inside a branch that is not selected has flags of its own, but its `outer`
  flag keeps all its branches closed.
* `BlockCall.nest`, `nested_iff` — nesting as a matter of the calls alone: conditions play no part.
* `Worksite.conditionals_select` — **conditionals select exactly one branch of each level at most,
  and a call that breaks nesting is refused and changes nothing.**
-/

namespace CellMachine

open CellMachine.Action

/-! ### What stands in branches -/

/-- A call that stands in a branch: it emits an instruction or defines a label. -/
inductive Contribution
  | emit (mnemonic : String) (operands : List Operand)
  | emitOp (op : Op) (operands : List Operand)
  | label (name : String)

namespace Contribution

/-- The call to the block. -/
def call : Contribution → BlockCall
  | .emit mnemonic operands => .emit mnemonic operands
  | .emitOp op operands => .emitOp op operands
  | .label name => .label name

/-- The call to the emission, with the symbols that are at hand. -/
def on (symbols? : Option SymbolTable) : Contribution → Call
  | .emit mnemonic operands => .emit symbols? mnemonic operands
  | .emitOp op operands => .emitOp symbols? op operands
  | .label name => .label name

/-- Makes the call to the emission of the block, past all conditionals. -/
def pass (c : Contribution) : Action Worksite Unit := fun w =>
  Worksite.onEmission (c.on w.symbols).perform w

/-- Whether the call emits an instruction. -/
def emits : Contribution → Bool
  | .emit _ _ | .emitOp _ _ => true
  | .label _ => false

end Contribution

/-- The number of instructions among calls. -/
def instructions (cs : List Contribution) : Nat := cs.countP Contribution.emits

mutual

/-- Calls with conditionals. -/
inductive CallTree
  | done
  | call (c : Contribution) (rest : CallTree)
  /-- A group of branches, with the condition and the body of its first branch. -/
  | group (cond : Bool) (body : CallTree) (tail : BranchTail) (rest : CallTree)

/-- What follows the body of a branch in its group. -/
inductive BranchTail
  | close
  /-- The last branch, and the end of the group. -/
  | otherwise (body : CallTree)
  /-- One more branch with a condition. -/
  | next (cond : Bool) (body : CallTree) (tail : BranchTail)

end

mutual

/-- The calls in their order. -/
def CallTree.calls : CallTree → List BlockCall
  | .done => []
  | .call c rest => c.call :: rest.calls
  | .group cond body tail rest => .openIf cond :: (body.calls ++ (tail.calls ++ rest.calls))

/-- The calls in their order. -/
def BranchTail.calls : BranchTail → List BlockCall
  | .close => [.endIf]
  | .otherwise body => .elseLast :: (body.calls ++ [.endIf])
  | .next cond body tail => .elseIf cond :: (body.calls ++ tail.calls)

end

mutual

/-- What stands in branches, selected or not. -/
def CallTree.contributions : CallTree → List Contribution
  | .done => []
  | .call c rest => c :: rest.contributions
  | .group _ body tail rest => body.contributions ++ (tail.contributions ++ rest.contributions)

/-- What stands in branches, selected or not. -/
def BranchTail.contributions : BranchTail → List Contribution
  | .close => []
  | .otherwise body => body.contributions
  | .next _ body tail => body.contributions ++ tail.contributions

end

mutual

/-- What a tree contributes: of each group, the first branch whose condition is true, or else the
last branch. -/
def CallTree.selected : CallTree → List Contribution
  | .done => []
  | .call c rest => c :: rest.selected
  | .group cond body tail rest => (if cond then body.selected else tail.selected) ++ rest.selected

/-- What the branches that follow contribute if no branch before them is selected. -/
def BranchTail.selected : BranchTail → List Contribution
  | .close => []
  | .otherwise body => body.selected
  | .next cond body tail => if cond then body.selected else tail.selected

end

/-! ### Runs of calls -/

namespace BlockCall

/-- The call to the emission that a call to the block stands for. -/
def contribution? : BlockCall → Option Contribution
  | .emit mnemonic operands => some (.emit mnemonic operands)
  | .emitOp op operands => some (.emitOp op operands)
  | .label name => some (.label name)
  | _ => none

/-- What a call passes on to the emission: what it stands for, if its branch is selected. -/
def passes? (w : Worksite) (call : BlockCall) : Option Contribution :=
  if w.block.active then call.contribution? else none

/-- What a call makes of the open levels, innermost first, each with whether its last branch has
been reached. There is nothing if it breaks nesting. -/
def nest : BlockCall → List Bool → Option (List Bool)
  | .openIf _, levels => some (false :: levels)
  | .elseIf _, false :: levels => some (false :: levels)
  | .elseLast, false :: levels => some (true :: levels)
  | .endIf, _ :: levels => some levels
  | .elseIf _, _ | .elseLast, _ | .endIf, _ => none
  | _, levels => some levels

end BlockCall

namespace Worksite

/-- A worksite after calls, whether they succeed or fail. -/
def afterAll (w : Worksite) (calls : List BlockCall) : Worksite :=
  calls.foldl (fun w call => call.perform.after w) w

/-- What is passed on to the emission along a run of calls. -/
def passedOn : Worksite → List BlockCall → List Contribution
  | _, [] => []
  | w, call :: rest => (call.passes? w).toList ++ passedOn (call.perform.after w) rest

/-- A worksite after calls to the emission of its block, whether they succeed or fail. -/
def passAll (w : Worksite) (cs : List Contribution) : Worksite :=
  cs.foldl (fun w c => c.pass.after w) w

/-- The same worksite with other levels and another count of instructions left out. -/
def marked (w : Worksite) (levels : List Level) (skipped : Nat) : Worksite :=
  { w with block := { w.block with levels, skipped } }

variable {w : Worksite}

/-- What is done to the emission does not look at levels and at the count, nor does it change
them. -/
theorem onEmission_marked {α : Type} (action : Action (Emission Placement) α)
    (levels : List Level) (skipped : Nat) :
    Commutes (fun w => w.marked levels skipped) (onEmission action) := by
  intro w
  show onEmission action (w.marked levels skipped) = _
  unfold onEmission
  rw [show (w.marked levels skipped).emission = w.emission from rfl]
  split
  · rfl
  · rfl

/-- A call to the emission does not look at levels and at the count. -/
theorem after_pass_marked (c : Contribution) (levels : List Level) (skipped : Nat) :
    c.pass.after (w.marked levels skipped) = (c.pass.after w).marked levels skipped :=
  (onEmission_marked (c.on w.symbols).perform levels skipped).after w

/-- Calls to the emission do not look at levels and at the count. -/
theorem passAll_marked (cs : List Contribution) (levels : List Level) (skipped : Nat) :
    (w.marked levels skipped).passAll cs = (w.passAll cs).marked levels skipped := by
  unfold passAll
  induction cs generalizing w with
  | nil => rfl
  | cons c rest ih => rw [List.foldl_cons, List.foldl_cons, after_pass_marked, ih]

/-- A call to the emission keeps levels and the count. -/
theorem after_pass_self (c : Contribution) :
    (c.pass.after w).marked w.block.levels w.block.skipped = c.pass.after w :=
  (after_pass_marked c w.block.levels w.block.skipped).symm

/-! ### Conditionals -/

/-- What ends well on a block ends well on its worksite. -/
theorem onBlock_ok {α : Type} {action : Action Block α} {a : α} {b : Block}
    (h : action w.block = .ok a b) : onBlock action w = .ok a { w with block := b } := by
  unfold onBlock
  rw [h]

/-- What fails on a block and leaves it alone leaves its worksite alone. -/
theorem onBlock_error {α : Type} {action : Action Block α} {failure : Failure}
    (h : action w.block = .error failure w.block) : onBlock action w = .error failure w := by
  unfold onBlock
  rw [h]

/-- The block goes on to a branch with a condition, unless the last branch has been reached. -/
theorem perform_elseIf {level : Level} {outer : List Level} (h : w.block.levels = level :: outer)
    (cond : Bool) :
    (BlockCall.elseIf cond).perform w =
      if level.sawElse then .error (.unbalanced .elseIfAfterElse) w
      else .ok () { w with block := { w.block with levels := { level with
        active := level.outer && !level.taken && cond
        taken := level.taken || cond } :: outer } } := by
  split
  · next hsaw =>
    refine onBlock_error ?_
    unfold Block.elseIf
    simp only [h]
    exact if_pos hsaw
  · next hsaw =>
    refine onBlock_ok ?_
    unfold Block.elseIf
    simp only [h]
    exact if_neg hsaw

/-- The block goes on to the last branch, unless it has been reached. -/
theorem perform_elseLast {level : Level} {outer : List Level}
    (h : w.block.levels = level :: outer) :
    BlockCall.elseLast.perform w =
      if level.sawElse then .error (.unbalanced .secondElse) w
      else .ok () { w with block := { w.block with levels := { level with
        active := level.outer && !level.taken, taken := true, sawElse := true } :: outer } } := by
  split
  · next hsaw =>
    refine onBlock_error ?_
    unfold Block.elseLast
    simp only [h]
    exact if_pos hsaw
  · next hsaw =>
    refine onBlock_ok ?_
    unfold Block.elseLast
    simp only [h]
    exact if_neg hsaw

/-- The block closes its innermost level. -/
theorem perform_endIf {level : Level} {outer : List Level} (h : w.block.levels = level :: outer) :
    BlockCall.endIf.perform w = .ok () { w with block := { w.block with levels := outer } } := by
  refine onBlock_ok ?_
  unfold Block.endIf
  rw [h]

/-- Outside all levels there is nothing to go on to or to close. -/
theorem perform_outside (h : w.block.levels = []) {call : BlockCall}
    (hcall : call.nest [] = none) :
    ∃ what, call.perform w = .error (.unbalanced (.outside what)) w := by
  cases call with
  | emit _ _ | emitOp _ _ | label _ | direct _ | openIf _ | rescope _ => cases hcall
  | elseIf cond => exact ⟨"elseif", onBlock_error (by unfold Block.elseIf; rw [h])⟩
  | elseLast => exact ⟨"else", onBlock_error (by unfold Block.elseLast; rw [h])⟩
  | endIf => exact ⟨"endif", onBlock_error (by unfold Block.endIf; rw [h])⟩

/-! ### Effects of runs -/

/-- The effect of a run of calls, of which `all` stand in branches: `passed` is passed on to the
emission and nothing else happens there, the instructions that are not passed on are counted, and
`levels` are open in the end. -/
structure Yields (w : Worksite) (calls : List BlockCall) (passed all : List Contribution)
    (levels : List Level) : Prop where
  trace : w.passedOn calls = passed
  left : ∃ skipped, skipped + instructions passed = w.block.skipped + instructions all ∧
    w.afterAll calls = (w.passAll passed).marked levels skipped

namespace Yields

variable {passed all passed' all' : List Contribution} {levels levels' : List Level}

/-- No calls have no effect. -/
theorem nil : w.Yields [] [] [] w.block.levels := ⟨rfl, w.block.skipped, rfl, rfl⟩

/-- The levels that are open after a run. -/
theorem levels_eq {calls : List BlockCall} (h : w.Yields calls passed all levels) :
    (w.afterAll calls).block.levels = levels := by
  obtain ⟨skipped, -, hlast⟩ := h.left
  rw [hlast]
  rfl

/-- **Effects of runs add up.** -/
theorem append {first second : List BlockCall} (hfirst : w.Yields first passed all levels)
    (hsecond : (w.afterAll first).Yields second passed' all' levels') :
    w.Yields (first ++ second) (passed ++ passed') (all ++ all') levels' where
  trace := by
    have hsplit : w.passedOn (first ++ second) =
        w.passedOn first ++ (w.afterAll first).passedOn second := by
      clear hfirst hsecond
      unfold afterAll
      induction first generalizing w with
      | nil => rfl
      | cons call rest ih =>
        rw [List.cons_append, passedOn, passedOn, ih, List.append_assoc, List.foldl_cons]
    rw [hsplit, hfirst.trace, hsecond.trace]
  left := by
    obtain ⟨skipped, hcount, hmid⟩ := hfirst.left
    obtain ⟨skipped', hcount', hlast⟩ := hsecond.left
    rw [hmid] at hlast hcount'
    refine ⟨skipped', ?_, ?_⟩
    · have hmarked : ((w.passAll passed).marked levels skipped).block.skipped = skipped := rfl
      unfold instructions at hcount hcount' ⊢
      rw [List.countP_append, List.countP_append]
      omega
    · calc w.afterAll (first ++ second) = (w.afterAll first).afterAll second :=
            List.foldl_append
        _ = ((w.passAll passed).passAll passed').marked levels' skipped' := by
            rw [hmid, hlast, passAll_marked]
            rfl
        _ = (w.passAll (passed ++ passed')).marked levels' skipped' := by
            rw [passAll, passAll, passAll, List.foldl_append]

/-- A call that changes levels alone has that effect. -/
theorem turn {call : BlockCall} (hcall : call.contribution? = none)
    (hperform : call.perform w = .ok () { w with block := { w.block with levels } }) :
    w.Yields [call] [] [] levels := by
  refine ⟨?_, w.block.skipped, rfl, after_of_ok hperform⟩
  have hnone : call.passes? w = none := by
    rw [BlockCall.passes?, hcall, ite_self]
  rw [passedOn, hnone]
  rfl

end Yields

/-- What stands in a branch is passed on if the branch is selected, and counted else if it is an
instruction. -/
theorem yields_contribution (w : Worksite) (c : Contribution) :
    w.Yields [c.call] (if w.block.active then [c] else []) [c] w.block.levels := by
  have hself : c.call.contribution? = some c := by cases c <;> rfl
  by_cases hactive : w.block.active
  · have hreach : c.call.reaching? w = some (c.on w.symbols) := by
      cases c <;> exact if_pos hactive
    have hpass : c.call.perform.after w = c.pass.after w :=
      after_congr (BlockCall.perform_of_reaching hreach)
    rw [if_pos hactive]
    refine ⟨?_, w.block.skipped, rfl, ?_⟩
    · rw [passedOn, BlockCall.passes?, if_pos hactive, hself]
      rfl
    · show c.call.perform.after w = (c.pass.after w).marked w.block.levels w.block.skipped
      rw [hpass, after_pass_self]
  · have hnone : c.call.passes? w = none := if_neg hactive
    rw [if_neg hactive]
    refine ⟨by rw [passedOn, hnone]; rfl, w.block.skipped + instructions [c], rfl, ?_⟩
    show c.call.perform.after w = w.marked w.block.levels (w.block.skipped + instructions [c])
    cases c with
    | emit _ _ | emitOp _ _ | label _ => exact after_of_ok ((ifActive_eq ..).trans (if_neg hactive))

end Worksite

/-! ### The calls of a tree -/

open Worksite

/-- What a run passes on if its branch is selected. -/
theorem ite_append_ite {α : Type} (a c : Bool) (xs ys zs : List α) :
    (if a && c then xs else []) ++ ((if a && !c then ys else []) ++ if a then zs else []) =
      if a then (if c then xs else ys) ++ zs else [] := by
  cases a <;> cases c <;> simp

mutual

/-- **The effect of the calls of a tree is that of its reading.** In a branch that is not selected
the tree contributes nothing. The levels are as before. -/
theorem CallTree.yields : (tree : CallTree) → (w : Worksite) →
    w.Yields tree.calls (if w.block.active then tree.selected else []) tree.contributions
      w.block.levels
  | .done, w => by
    rw [CallTree.selected, ite_self]
    exact .nil
  | .call c rest, w => by
    have hfirst := w.yields_contribution c
    have hrest := rest.yields (w.afterAll [c.call])
    have hlevels := hfirst.levels_eq
    have hactive : (w.afterAll [c.call]).block.active = w.block.active := by
      unfold Block.active
      rw [hlevels]
    rw [hlevels, hactive] at hrest
    have h := hfirst.append hrest
    have hsplit : (if w.block.active then [c] else []) ++
        (if w.block.active then rest.selected else []) =
          if w.block.active then c :: rest.selected else [] := by
      cases w.block.active <;> rfl
    rwa [hsplit] at h
  | .group cond body tail rest, w => by
    -- the level of the group lies on top of the levels that are open before it
    let level : Level :=
      { active := w.block.active && cond, taken := cond, outer := w.block.active }
    have hopen : w.Yields [.openIf cond] [] [] (level :: w.block.levels) := .turn rfl rfl
    have hbody := body.yields (w.afterAll [.openIf cond])
    rw [hopen.levels_eq] at hbody
    have hthere := hopen.append hbody
    have htail := tail.yields (w.afterAll ([.openIf cond] ++ body.calls)) hthere.levels_eq rfl
    have hclosed := hthere.append htail
    have hrest := rest.yields (w.afterAll (([.openIf cond] ++ body.calls) ++ tail.calls))
    have hactive : (w.afterAll (([.openIf cond] ++ body.calls) ++ tail.calls)).block.active =
        w.block.active := by
      unfold Block.active
      rw [hclosed.levels_eq]
    rw [hclosed.levels_eq, hactive] at hrest
    have h := hclosed.append hrest
    have hbranch : (w.afterAll [.openIf cond]).block.active = (w.block.active && cond) := by
      unfold Block.active
      rw [hopen.levels_eq]
      rfl
    simp only [List.nil_append, List.append_assoc, hbranch, level] at h
    rwa [ite_append_ite] at h

/-- **The effect of the calls behind the body of a branch.** They belong to the innermost level and
close it. They contribute what they say if the level stands in selected code and no branch was
selected before. -/
theorem BranchTail.yields : (tail : BranchTail) → (w : Worksite) → {level : Level} →
    {outer : List Level} → w.block.levels = level :: outer → level.sawElse = false →
    w.Yields tail.calls (if level.outer && !level.taken then tail.selected else [])
      tail.contributions outer
  | .close, w, level, outer, hlevels, _ => by
    rw [BranchTail.selected, ite_self]
    exact .turn rfl (perform_endIf hlevels)
  | .otherwise body, w, level, outer, hlevels, hsaw => by
    let last : Level :=
      { level with active := level.outer && !level.taken, taken := true, sawElse := true }
    have hturn : w.Yields [.elseLast] [] [] (last :: outer) := by
      refine .turn rfl ?_
      rw [perform_elseLast hlevels, if_neg (Bool.eq_false_iff.mp hsaw)]
    have hbody := body.yields (w.afterAll [.elseLast])
    rw [hturn.levels_eq] at hbody
    have hthere := hturn.append hbody
    have hclose : (w.afterAll ([.elseLast] ++ body.calls)).Yields [.endIf] [] [] outer :=
      .turn rfl (perform_endIf hthere.levels_eq)
    have h := hthere.append hclose
    have hbranch : (w.afterAll [.elseLast]).block.active = (level.outer && !level.taken) := by
      unfold Block.active
      rw [hturn.levels_eq]
    simp only [List.nil_append, List.append_nil, List.append_assoc, hbranch] at h
    exact h
  | .next cond body tail, w, level, outer, hlevels, hsaw => by
    let turned : Level := { level with
      active := level.outer && !level.taken && cond, taken := level.taken || cond }
    have hturn : w.Yields [.elseIf cond] [] [] (turned :: outer) := by
      refine .turn rfl ?_
      rw [perform_elseIf hlevels, if_neg (Bool.eq_false_iff.mp hsaw)]
    have hbody := body.yields (w.afterAll [.elseIf cond])
    rw [hturn.levels_eq] at hbody
    have hthere := hturn.append hbody
    have hgoing : turned.sawElse = false := hsaw
    have htail := tail.yields (w.afterAll ([.elseIf cond] ++ body.calls)) hthere.levels_eq hgoing
    have h := hthere.append htail
    have hbranch : (w.afterAll [.elseIf cond]).block.active =
        (level.outer && !level.taken && cond) := by
      unfold Block.active
      rw [hturn.levels_eq]
    have hsplit : (if level.outer && !level.taken && cond then body.selected else []) ++
        (if level.outer && !(level.taken || cond) then tail.selected else []) =
          if level.outer && !level.taken then
            (if cond then body.selected else tail.selected) else [] := by
      cases level.outer <;> cases level.taken <;> cases cond <;> simp
    simp only [List.nil_append, List.append_assoc, hbranch, turned] at h
    rwa [hsplit] at h

end

/-! ### Nesting -/

namespace BlockCall

/-- The call belongs to the branches of a block: it stands in one or is a conditional. -/
def InBranches : BlockCall → Prop
  | .direct _ | .rescope _ => False
  | _ => True

end BlockCall

/-- What calls make of open levels. A call that breaks nesting is passed over. -/
def nesting (levels : List Bool) (calls : List BlockCall) : List Bool :=
  calls.foldl (fun levels call => (call.nest levels).getD levels) levels

/-- What calls make of open levels, if none of them breaks nesting. -/
def nested? (levels : List Bool) (calls : List BlockCall) : Option (List Bool) :=
  calls.foldlM (fun levels call => call.nest levels) levels

mutual

/-- The calls of a tree close all levels that they open. -/
theorem CallTree.nested : (tree : CallTree) → (levels : List Bool) →
    nested? levels tree.calls = some levels
  | .done, _ => rfl
  | .call c rest, levels => by
    have hcall : c.call.nest levels = some levels := by cases c <;> rfl
    rw [CallTree.calls, nested?, List.foldlM_cons, hcall]
    exact rest.nested levels
  | .group _ body tail rest, levels => by
    rw [CallTree.calls, nested?, List.foldlM_cons]
    show nested? (false :: levels) _ = _
    rw [nested?, List.foldlM_append, ← nested?, body.nested (false :: levels)]
    show nested? (false :: levels) _ = _
    rw [nested?, List.foldlM_append, ← nested?, tail.nested levels]
    exact rest.nested levels

/-- The calls behind the body of a branch close its level. -/
theorem BranchTail.nested : (tail : BranchTail) → (levels : List Bool) →
    nested? (false :: levels) tail.calls = some levels
  | .close, _ => rfl
  | .otherwise body, levels => by
    rw [BranchTail.calls, nested?, List.foldlM_cons]
    show nested? (true :: levels) _ = _
    rw [nested?, List.foldlM_append, ← nested?, body.nested (true :: levels)]
    rfl
  | .next _ body tail, levels => by
    rw [BranchTail.calls, nested?, List.foldlM_cons]
    show nested? (false :: levels) _ = _
    rw [nested?, List.foldlM_append, ← nested?, body.nested (false :: levels)]
    exact tail.nested levels

end

mutual

/-- The calls of a tree belong to branches. -/
theorem CallTree.inBranches : (tree : CallTree) → ∀ call ∈ tree.calls, call.InBranches
  | .done => by simp [CallTree.calls]
  | .call c rest => by
    have hcall : c.call.InBranches := by cases c <;> trivial
    exact List.forall_mem_cons.mpr ⟨hcall, rest.inBranches⟩
  | .group _ body tail rest => by
    rw [CallTree.calls, List.forall_mem_cons, List.forall_mem_append, List.forall_mem_append]
    exact ⟨trivial, body.inBranches, tail.inBranches, rest.inBranches⟩

/-- The calls behind the body of a branch belong to branches. -/
theorem BranchTail.inBranches : (tail : BranchTail) → ∀ call ∈ tail.calls, call.InBranches
  | .close => by simp [BranchTail.calls, BlockCall.InBranches]
  | .otherwise body => by
    rw [BranchTail.calls, List.forall_mem_cons, List.forall_mem_append]
    exact ⟨trivial, body.inBranches, by simp [BlockCall.InBranches]⟩
  | .next _ body tail => by
    rw [BranchTail.calls, List.forall_mem_cons, List.forall_mem_append]
    exact ⟨trivial, body.inBranches, tail.inBranches⟩

end

/-- Calls fall into the rest of a branch for each open level, with what ends it, and the calls of a
tree behind them all. Only the end of a group follows a last branch. -/
def Completes : List Bool → List BlockCall → Prop
  | [], calls => ∃ tree : CallTree, tree.calls = calls
  | saw :: levels, calls => ∃ (body : CallTree) (tail : BranchTail) (rest : List BlockCall),
    calls = body.calls ++ (tail.calls ++ rest) ∧ (saw = true → tail = .close) ∧
      Completes levels rest

/-- One more call before the calls that close open levels. -/
theorem Completes.contribution {levels : List Bool} {calls : List BlockCall}
    (h : Completes levels calls) (c : Contribution) : Completes levels (c.call :: calls) := by
  cases levels with
  | nil =>
    obtain ⟨tree, rfl⟩ := h
    exact ⟨.call c tree, rfl⟩
  | cons saw levels =>
    obtain ⟨body, tail, rest, rfl, hlast, hrest⟩ := h
    exact ⟨.call c body, tail, rest, rfl, hlast, hrest⟩

/-- A group before the calls that close open levels. -/
theorem Completes.group {levels : List Bool} {calls : List BlockCall} (h : Completes levels calls)
    (cond : Bool) (body : CallTree) (tail : BranchTail) :
    Completes levels (.openIf cond :: (body.calls ++ (tail.calls ++ calls))) := by
  cases levels with
  | nil =>
    obtain ⟨tree, rfl⟩ := h
    exact ⟨.group cond body tail tree, rfl⟩
  | cons saw levels =>
    obtain ⟨body', tail', rest, rfl, hlast, hrest⟩ := h
    refine ⟨.group cond body tail body', tail', rest, ?_, hlast, hrest⟩
    simp [CallTree.calls]

/-- Calls that nest and leave no level open close all levels. -/
theorem completes_of_nested {calls : List BlockCall} (hcalls : ∀ call ∈ calls, call.InBranches) :
    ∀ {levels : List Bool}, nested? levels calls = some [] → Completes levels calls := by
  induction calls with
  | nil =>
    intro levels h
    cases h
    exact ⟨.done, rfl⟩
  | cons call rest ih =>
    intro levels h
    obtain ⟨hcall, hrest⟩ := List.forall_mem_cons.mp hcalls
    rw [nested?, List.foldlM_cons] at h
    obtain ⟨levels', hnest, hmore⟩ := Option.bind_eq_some_iff.mp h
    have hcompletes : Completes levels' rest := ih hrest hmore
    cases call with
    | direct _ | rescope _ => cases hcall
    | emit mnemonic operands =>
      cases hnest
      exact hcompletes.contribution (.emit mnemonic operands)
    | emitOp op operands =>
      cases hnest
      exact hcompletes.contribution (.emitOp op operands)
    | label name =>
      cases hnest
      exact hcompletes.contribution (.label name)
    | openIf cond =>
      cases hnest
      obtain ⟨body, tail, after, rfl, -, hafter⟩ := hcompletes
      exact hafter.group cond body tail
    | elseIf cond =>
      rcases levels with _ | ⟨_ | _, outer⟩
      · cases hnest
      · cases hnest
        obtain ⟨body, tail, after, rfl, -, hafter⟩ := hcompletes
        refine ⟨.done, .next cond body tail, after, ?_, nofun, hafter⟩
        simp [CallTree.calls, BranchTail.calls]
      · cases hnest
    | elseLast =>
      rcases levels with _ | ⟨_ | _, outer⟩
      · cases hnest
      · cases hnest
        obtain ⟨body, tail, after, rfl, hlast, hafter⟩ := hcompletes
        obtain rfl := hlast rfl
        refine ⟨.done, .otherwise body, after, ?_, nofun, hafter⟩
        simp [CallTree.calls, BranchTail.calls]
      · cases hnest
    | endIf =>
      rcases levels with _ | ⟨saw, outer⟩
      · cases hnest
      · cases hnest
        exact ⟨.done, .close, rest, rfl, fun _ => rfl, hcompletes⟩

/-- **Calls are those of a tree exactly if they nest**: no one of them breaks nesting, and all
levels are closed in the end. -/
theorem nested_iff {calls : List BlockCall} :
    (∃ tree : CallTree, tree.calls = calls) ↔
      (∀ call ∈ calls, call.InBranches) ∧ nested? [] calls = some [] := by
  constructor
  · rintro ⟨tree, rfl⟩
    exact ⟨tree.inBranches, tree.nested []⟩
  · rintro ⟨hcalls, hnested⟩
    exact completes_of_nested hcalls hnested

/-! ### Calls that break nesting -/

namespace Worksite

variable {w : Worksite}

/-- The open levels of a block, each with whether its last branch has been reached. -/
def openLevels (w : Worksite) : List Bool := w.block.levels.map Level.sawElse

/-- What is done to the emission leaves the open levels alone. -/
theorem openLevels_onEmission {α : Type} (action : Action (Emission Placement) α) :
    ((onEmission action).after w).openLevels = w.openLevels := by
  unfold Action.after onEmission
  cases action w.emission <;> rfl

/-- **A call that breaks nesting is refused and changes nothing.** -/
theorem perform_of_breaking {call : BlockCall} (h : call.nest w.openLevels = none) :
    ∃ fault, call.perform w = .error (.unbalanced fault) w := by
  rcases hopen : w.openLevels with _ | ⟨saw, rest⟩
  · rw [hopen] at h
    obtain ⟨what, hrefused⟩ := perform_outside (List.map_eq_nil_iff.mp hopen) h
    exact ⟨_, hrefused⟩
  · obtain ⟨level, outer, hlevels, hsaw, -⟩ := List.map_eq_cons_iff.mp hopen
    rw [hopen] at h
    cases saw with
    | false => cases call <;> cases h
    | true =>
      cases call with
      | emit _ _ | emitOp _ _ | label _ | direct _ | openIf _ | endIf | rescope _ => cases h
      | elseIf cond => exact ⟨_, (perform_elseIf hlevels cond).trans (if_pos hsaw)⟩
      | elseLast => exact ⟨_, (perform_elseLast hlevels).trans (if_pos hsaw)⟩

/-- A call changes the open levels as it nests. -/
theorem openLevels_after (w : Worksite) (call : BlockCall) :
    (call.perform.after w).openLevels = (call.nest w.openLevels).getD w.openLevels := by
  cases hnest : call.nest w.openLevels with
  | none =>
    obtain ⟨fault, hrefused⟩ := perform_of_breaking hnest
    rw [after_of_error hrefused]
    rfl
  | some levels =>
    show _ = levels
    cases call with
    | emit _ _ | emitOp _ _ | label _ =>
      cases hnest
      by_cases hactive : w.block.active
      · exact (congrArg openLevels (after_congr ((ifActive_eq ..).trans (if_pos hactive)))).trans
          (openLevels_onEmission _)
      · exact (congrArg openLevels (after_congr ((ifActive_eq ..).trans (if_neg hactive)))).trans
          rfl
    | direct call =>
      cases hnest
      exact openLevels_onEmission _
    | openIf _ | rescope _ =>
      cases hnest
      rfl
    | elseIf cond =>
      rcases hopen : w.openLevels with _ | ⟨_ | _, rest⟩ <;> rw [hopen] at hnest <;> cases hnest
      obtain ⟨level, outer, hlevels, hsaw, rfl⟩ := List.map_eq_cons_iff.mp hopen
      rw [after_of_ok ((perform_elseIf hlevels cond).trans
        (if_neg (Bool.eq_false_iff.mp hsaw))), openLevels, List.map_cons, hsaw]
    | elseLast =>
      rcases hopen : w.openLevels with _ | ⟨_ | _, rest⟩ <;> rw [hopen] at hnest <;> cases hnest
      obtain ⟨level, outer, hlevels, hsaw, rfl⟩ := List.map_eq_cons_iff.mp hopen
      rw [after_of_ok ((perform_elseLast hlevels).trans
        (if_neg (Bool.eq_false_iff.mp hsaw))), openLevels, List.map_cons]
    | endIf =>
      rcases hopen : w.openLevels with _ | ⟨saw, rest⟩ <;> rw [hopen] at hnest <;> cases hnest
      obtain ⟨level, outer, hlevels, -, rfl⟩ := List.map_eq_cons_iff.mp hopen
      rw [after_of_ok (perform_endIf hlevels)]
      rfl

/-- The open levels after a run of calls. -/
theorem openLevels_afterAll (w : Worksite) (calls : List BlockCall) :
    (w.afterAll calls).openLevels = nesting w.openLevels calls := by
  unfold afterAll nesting
  induction calls generalizing w with
  | nil => rfl
  | cons call rest ih => rw [List.foldl_cons, List.foldl_cons, ih, openLevels_after]

/-- A block with open levels is not closed. -/
theorem close_of_openLevels (h : w.openLevels ≠ []) :
    ∃ fault, close w = .error (.unbalanced fault) w := by
  have hlevels : !w.block.levels.isEmpty := by
    cases hlevels : w.block.levels with
    | nil => exact absurd (congrArg (List.map Level.sawElse) hlevels) h
    | cons level outer => rfl
  exact ⟨_, (close_eq w).trans (if_pos hlevels)⟩

/-- **Conditionals select branches.** For calls to a block that nest, to any depth and with any
conditions, what is passed on to its emission is, in order, what the reading of the calls as a tree
selects; the effect on the block and its program is that of passing it on, and the count grows by
the other instructions. In a branch that is not selected the calls contribute nothing. The calls
that nest are exactly those of a tree. A call that breaks nesting, after whatever calls to a new
block, is refused as unbalanced and changes nothing, and so is closing the block inside a level. -/
theorem conditionals_select :
    (∀ (tree : CallTree) (w : Worksite),
      w.Yields tree.calls (if w.block.active then tree.selected else []) tree.contributions
        w.block.levels) ∧
    (∀ calls : List BlockCall, (∃ tree : CallTree, tree.calls = calls) ↔
      (∀ call ∈ calls, call.InBranches) ∧ nested? [] calls = some []) ∧
    ∀ (w : Worksite) (before : List BlockCall), w.block.levels = [] →
      (∀ call : BlockCall, call.nest (nesting [] before) = none →
        ∃ fault, call.perform (w.afterAll before) =
          .error (.unbalanced fault) (w.afterAll before)) ∧
      (nesting [] before ≠ [] →
        ∃ fault, close (w.afterAll before) = .error (.unbalanced fault) (w.afterAll before)) := by
  refine ⟨CallTree.yields, fun calls => nested_iff, ?_⟩
  intro w before hlevels
  have hopen : (w.afterAll before).openLevels = nesting [] before := by
    rw [openLevels_afterAll, openLevels, hlevels]
    rfl
  rw [← hopen]
  exact ⟨fun call h => perform_of_breaking h, close_of_openLevels⟩

/-- A new block in a program. -/
def newSite : Worksite :=
  let segment : Segment := { buffer := { base := 0, cells := Array.replicate 8 0 }, entry := 0 }
  let program : Program := { dataBase := 0, dataCells := 0, current? := some ⟨"pick", 0⟩ }
  { block := { id := 0, context := Context.openStatic (Placement.mk segment program), segment }
    program }

/-- The instruction that sets the first register. -/
def constant (value : Cell) : Contribution := .emit "CONST.P" [.immediate value]

/-- A group of three branches, in the first of which there is a group of two. -/
def nestedGroups (first second : Bool) : CallTree :=
  .group first
    (.group second (.call (constant 1) .done) (.otherwise (.call (constant 4) .done)) .done)
    (.next second (.call (constant 2) .done) (.otherwise (.call (constant 3) .done)))
    (.call (.emit "RET" []) .done)

/-- In a new block the last branch of the inner group is selected, and three instructions are left
out. A second last branch is refused, and so is closing the block there. -/
theorem conditionals_select_sample :
    newSite.passedOn (nestedGroups true false).calls = [constant 4, .emit "RET" []] ∧
    (newSite.afterAll (nestedGroups true false).calls).block.skipped = 3 ∧
    newSite.block.levels = [] ∧
    (∃ fault, BlockCall.elseLast.perform (newSite.afterAll [.openIf true, .elseLast]) =
      .error (.unbalanced fault) (newSite.afterAll [.openIf true, .elseLast])) ∧
    ∃ fault, close (newSite.afterAll [.openIf true, .elseLast]) =
      .error (.unbalanced fault) (newSite.afterAll [.openIf true, .elseLast]) := by
  obtain ⟨hselect, -, hbreaks⟩ := conditionals_select
  obtain ⟨htrace, skipped, hcount, hlast⟩ := hselect (nestedGroups true false) newSite
  obtain ⟨hrefused, hclose⟩ := hbreaks newSite [.openIf true, .elseLast] rfl
  refine ⟨htrace, ?_, rfl, hrefused .elseLast rfl, hclose (by decide)⟩
  have hpassed : instructions [constant 4, .emit "RET" []] = 2 := rfl
  have hall : instructions (nestedGroups true false).contributions = 5 := rfl
  rw [hlast]
  change skipped + instructions [constant 4, .emit "RET" []] = 0 + _ at hcount
  show skipped = 3
  omega

end Worksite

end CellMachine
