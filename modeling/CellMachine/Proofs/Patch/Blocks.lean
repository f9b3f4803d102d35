import CellMachine.Patch.Parse
import CellMachine.Proofs.Action
import CellMachine.Proofs.Assembly.Selection

/-!
# Patch files as blocks

A patch file is read statement by statement, and all that is remembered is the patch whose body is
being read. The module says which files are read: those whose statements are blocks, one behind the
other, each with a first line, a body without directives and a last line. A block that opens inside
another, a body without an end, an end without a body, a label on a first line, a statement outside
the blocks: none of these has the form, and none is read.

* `PatchTarget.StatedBy`, `PatchBlock` — the form, told without the reader.
* `readPatches_cons_ok` — the three ways in which a statement is taken.
* `readPatches_blocks` — blocks are read as their patches; `blocks_of_readPatches` — what is read is
  blocks.
* `parsePatches_grammar` — **a patch file is read if and only if it is a sequence of blocks**, and
  then as the patches of the blocks.
-/

namespace CellMachine

/-! ### The form -/

/-- Arguments that state a target: the name of a region, or the base and the capacity of a range. -/
inductive PatchTarget.StatedBy : PatchTarget → List Arg → Prop
  | region {arg : Arg} {name : String} (htext : arg.text.read = name)
    (hname : Text.isName name = true) : StatedBy (.region name) [arg]
  | range {first second : Arg} {base capacity : Cell}
    (hfirst : parseOperand first.text.read = .ok (.immediate base))
    (hsecond : parseOperand second.text.read = .ok (.immediate capacity)) :
    StatedBy (.range base capacity) [first, second]

/-- One block of a patch file. -/
structure PatchBlock where
  first : Statement
  target : PatchTarget
  inner : List Statement
  last : Statement
  opens : first.op? = some ".patch"
  unlabelled : first.label? = none
  states : target.StatedBy first.args
  plain : ∀ st ∈ inner, st.isDirective = false
  closes : last.op? = some ".endpatch"

namespace PatchBlock

/-- The statements of a block. -/
def statements (b : PatchBlock) : List Statement := b.first :: (b.inner ++ [b.last])

/-- The patch that a block states. -/
def patch (b : PatchBlock) : Patch where
  pos := b.first.pos
  target := b.target
  body := b.inner ++ b.last.labelLine

end PatchBlock

/-! ### First lines -/

/-- An argument states a number if it is read as an immediate operand. -/
theorem Arg.number_ok_iff {arg : Arg} {v : Cell} :
    arg.number = .ok v ↔ parseOperand arg.text.read = .ok (.immediate v) := by
  unfold Arg.number
  split <;> simp_all

/-- An argument states a name if it is one. -/
theorem Arg.name_ok_iff {arg : Arg} {name : String} :
    arg.name = .ok name ↔ Text.isName arg.text.read = true ∧ arg.text.read = name := by
  unfold Arg.name
  split <;> simp_all

/-- **The target that a first line states** is the one that it is read as. -/
theorem patchTarget_ok_iff {args : List Arg} {target : PatchTarget} :
    patchTarget args = .ok target ↔ target.StatedBy args := by
  constructor
  · intro h
    unfold patchTarget at h
    split at h
    · next arg =>
      cases hname : arg.name with
      | error cause => simp [hname, Except.map] at h
      | ok name =>
        obtain ⟨hisname, rfl⟩ := Arg.name_ok_iff.mp hname
        simp only [hname, Except.map, Except.ok.injEq] at h
        subst h
        exact .region rfl hisname
    · next first second =>
      cases hfirst : first.number with
      | error cause => simp [hfirst, bind, Except.bind] at h
      | ok base =>
        cases hsecond : second.number with
        | error cause => simp [hfirst, hsecond, bind, Except.bind] at h
        | ok capacity =>
          simp only [hfirst, hsecond, bind, Except.bind, pure, Except.pure, Except.ok.injEq] at h
          subst h
          exact .range (Arg.number_ok_iff.mp hfirst) (Arg.number_ok_iff.mp hsecond)
    · cases h
  · intro h
    cases h with
    | region htext hname =>
      subst htext
      simp only [patchTarget, Arg.name_ok_iff.mpr ⟨hname, rfl⟩, Except.map]
    | range hfirst hsecond =>
      simp only [patchTarget, Arg.number_ok_iff.mpr hfirst, Arg.number_ok_iff.mpr hsecond]
      rfl

/-! ### Statements of a body -/

section Reading

variable {p : Patch} {st : Statement} {rest : List Statement}

/-- A first line opens a body. -/
theorem readPatches_first {target : PatchTarget} (hopens : st.op? = some ".patch")
    (hlabel : st.label? = none) (htarget : target.StatedBy st.args) :
    readPatches none (st :: rest) = readPatches (some { pos := st.pos, target }) rest := by
  simp only [readPatches, hopens, hlabel, patchTarget_ok_iff.mpr htarget]

/-- A statement that is no directive goes to the body. -/
theorem readPatches_inner (hplain : st.isDirective = false) :
    readPatches (some p) (st :: rest) =
      readPatches (some { p with body := p.body ++ [st] }) rest := by
  simp only [readPatches]
  split
  · next hopens _ => simp [Statement.isDirective, hopens] at hplain
  · next hopens _ => simp [Statement.isDirective, hopens] at hplain
  · next hcloses _ => simp [Statement.isDirective, hcloses] at hplain
  · next hcloses _ => simp [Statement.isDirective, hcloses] at hplain
  · next hp _ _ => cases hp
  · next hp _ _ =>
    cases hp
    rw [if_neg (by simp [hplain])]

/-- A last line closes the body. -/
theorem readPatches_last (hcloses : st.op? = some ".endpatch") :
    readPatches (some p) (st :: rest) =
      (readPatches none rest).map ({ p with body := p.body ++ st.labelLine } :: ·) := by
  cases hlabel : st.label? <;> simp [readPatches, Statement.labelLine, hcloses, hlabel]

/-- **The three ways in which a statement is taken**: it opens a body, it closes one, or it goes to
one. -/
theorem readPatches_cons_ok {open? : Option Patch} {ps : List Patch}
    (h : readPatches open? (st :: rest) = .ok ps) :
    (∃ target : PatchTarget, open? = none ∧ st.op? = some ".patch" ∧ st.label? = none ∧
        target.StatedBy st.args ∧ readPatches (some { pos := st.pos, target }) rest = .ok ps) ∨
      (∃ p qs, open? = some p ∧ st.op? = some ".endpatch" ∧ readPatches none rest = .ok qs ∧
        ps = { p with body := p.body ++ st.labelLine } :: qs) ∨
      ∃ p, open? = some p ∧ st.isDirective = false ∧
        readPatches (some { p with body := p.body ++ [st] }) rest = .ok ps := by
  cases open? with
  | none =>
    simp only [readPatches] at h
    split at h
    · cases h
    · next hopens _ =>
      split at h
      · cases h
      · next hlabel =>
        split at h
        · cases h
        · next target htarget =>
          exact .inl ⟨target, rfl, hopens, hlabel, patchTarget_ok_iff.mp htarget, h⟩
    all_goals simp_all
  | some p =>
    by_cases hcloses : st.op? = some ".endpatch"
    · rw [readPatches_last hcloses] at h
      cases hrest : readPatches none rest with
      | error cause =>
        rw [hrest] at h
        cases h
      | ok qs =>
        rw [hrest] at h
        cases h
        exact .inr (.inl ⟨p, qs, rfl, hcloses, rfl, rfl⟩)
    · simp only [readPatches] at h
      split at h
      · cases h
      · simp_all
      · cases h
      · next hends _ => exact absurd hends hcloses
      · cases h
      · next hp _ _ =>
        cases hp
        split at h
        · cases h
        · next hplain => exact .inr (.inr ⟨p, rfl, by simpa using hplain, h⟩)

end Reading

/-! ### Whole files -/

/-- The statements of a body are gathered up to its last line. -/
theorem readPatches_body {last : Statement} (hcloses : last.op? = some ".endpatch")
    (rest : List Statement) :
    (inner : List Statement) → (∀ st ∈ inner, st.isDirective = false) → ∀ p : Patch,
      readPatches (some p) (inner ++ last :: rest) =
        (readPatches none rest).map ({ p with body := p.body ++ inner ++ last.labelLine } :: ·)
  | [], _, p => by
    rw [List.nil_append, readPatches_last hcloses, List.append_nil]
  | st :: inner, hplain, p => by
    rw [List.cons_append, readPatches_inner (hplain st (List.mem_cons_self ..)),
      readPatches_body hcloses rest inner fun st' hst' => hplain st' (List.mem_cons_of_mem _ hst')]
    simp only [List.append_assoc, List.cons_append, List.nil_append]

/-- **Blocks are read as their patches.** -/
theorem readPatches_blocks : (blocks : List PatchBlock) →
    readPatches none (blocks.flatMap PatchBlock.statements) = .ok (blocks.map PatchBlock.patch)
  | [] => rfl
  | b :: blocks => by
    have hstatements : (b :: blocks).flatMap PatchBlock.statements =
        b.first :: (b.inner ++ b.last :: blocks.flatMap PatchBlock.statements) := by
      simp [PatchBlock.statements]
    rw [hstatements, readPatches_first b.opens b.unlabelled b.states,
      readPatches_body b.closes _ _ b.plain, readPatches_blocks blocks]
    rfl

/-- **What is read is blocks**, behind the rest of the body that is being read if there is one. -/
theorem blocks_of_readPatches : (sts : List Statement) → ∀ {ps : List Patch},
    (readPatches none sts = .ok ps → ∃ blocks : List PatchBlock,
      sts = blocks.flatMap PatchBlock.statements) ∧
    ∀ p, readPatches (some p) sts = .ok ps →
      ∃ (inner : List Statement) (last : Statement) (blocks : List PatchBlock),
        (∀ st ∈ inner, st.isDirective = false) ∧ last.op? = some ".endpatch" ∧
          sts = inner ++ last :: blocks.flatMap PatchBlock.statements
  | [], ps => ⟨fun _ => ⟨[], rfl⟩, fun _ h => nomatch h⟩
  | st :: rest, ps => by
    refine ⟨fun h => ?_, fun p h => ?_⟩
    · rcases readPatches_cons_ok h with
        ⟨target, -, hopens, hlabel, hstates, hrest⟩ | ⟨_, _, hp, -⟩ | ⟨_, hp, -⟩
      · obtain ⟨inner, last, blocks, hplain, hcloses, rfl⟩ :=
          (blocks_of_readPatches rest).2 _ hrest
        refine ⟨⟨st, target, inner, last, hopens, hlabel, hstates, hplain, hcloses⟩ :: blocks, ?_⟩
        simp [PatchBlock.statements]
      · cases hp
      · cases hp
    · rcases readPatches_cons_ok h with ⟨_, hp, -⟩ | ⟨_, qs, -, hcloses, hrest, -⟩ |
        ⟨_, -, hplain, hrest⟩
      · cases hp
      · obtain ⟨blocks, rfl⟩ := (blocks_of_readPatches rest).1 hrest
        exact ⟨[], st, blocks, List.forall_mem_nil _, hcloses, rfl⟩
      · obtain ⟨inner, last, blocks, hinner, hcloses, rfl⟩ :=
          (blocks_of_readPatches rest).2 _ hrest
        exact ⟨st :: inner, last, blocks, List.forall_mem_cons.mpr ⟨hplain, hinner⟩, hcloses, rfl⟩

/-- **A patch file is read if and only if its statements are a sequence of blocks**, and then as the
patches of the blocks, in order: each has the target that the first line states, and its body is all
that stands between the first and the last line, with the label of the last line behind it. -/
theorem parsePatches_grammar {source : RawText} {sts : List Statement}
    (h : parseSource source = .ok sts) :
    ((∃ ps, parsePatches source = .ok ps) ↔
      ∃ blocks : List PatchBlock, sts = blocks.flatMap PatchBlock.statements) ∧
    ∀ blocks : List PatchBlock, sts = blocks.flatMap PatchBlock.statements →
      parsePatches source = .ok (blocks.map PatchBlock.patch) := by
  have hread : parsePatches source = readPatches none sts := by
    unfold parsePatches
    rw [h]
    rfl
  have hblocks : ∀ blocks : List PatchBlock, sts = blocks.flatMap PatchBlock.statements →
      parsePatches source = .ok (blocks.map PatchBlock.patch) := by
    rintro blocks rfl
    rw [hread, readPatches_blocks]
  refine ⟨⟨?_, ?_⟩, hblocks⟩
  · rintro ⟨ps, hps⟩
    exact (blocks_of_readPatches sts).1 (hread.symm.trans hps)
  · rintro ⟨blocks, hsts⟩
    exact ⟨_, hblocks blocks hsts⟩

/-- A file of two blocks; the label of the first block's last line belongs to its body. -/
def twoBlockFile : RawText :=
  RawText.ofString ".patch hook\nJREL :done\ndone: .endpatch\n.patch 0x10, 'a'\n.endpatch"

/-- The blocks of the file. -/
def twoBlocks : List PatchBlock :=
  [{ first := { pos := ⟨1, 1⟩, op? := some ".patch", args := [⟨⟨1, 8⟩, RawText.ofString "hook"⟩] }
     target := .region "hook"
     inner := [{ pos := ⟨2, 1⟩, op? := some "JREL",
                 args := [⟨⟨2, 6⟩, RawText.ofString ":done"⟩] }]
     last := { pos := ⟨3, 1⟩, label? := some "done", op? := some ".endpatch" }
     opens := rfl, unlabelled := rfl, states := .region (by decide +kernel) (by decide +kernel)
     plain := by decide +kernel, closes := rfl },
   { first := { pos := ⟨4, 1⟩, op? := some ".patch",
                args := [⟨⟨4, 8⟩, RawText.ofString "0x10"⟩, ⟨⟨4, 14⟩, RawText.ofString "'a'"⟩] }
     target := .range 16 97
     inner := []
     last := { pos := ⟨5, 1⟩, op? := some ".endpatch" }
     opens := rfl, unlabelled := rfl
     states := .range (Action.ok_of_toOption (by decide +kernel))
       (Action.ok_of_toOption (by decide +kernel))
     plain := by decide, closes := rfl }]

/-- The file is read as the two patches. -/
theorem parsePatches_grammar_sample :
    parsePatches twoBlockFile = .ok
      [{ pos := ⟨1, 1⟩, target := .region "hook",
         body := [{ pos := ⟨2, 1⟩, op? := some "JREL",
                    args := [⟨⟨2, 6⟩, RawText.ofString ":done"⟩] },
                  { pos := ⟨3, 1⟩, label? := some "done" }] },
       { pos := ⟨4, 1⟩, target := .range 16 97 }] := by
  have hsource : parseSource twoBlockFile = .ok (twoBlocks.flatMap PatchBlock.statements) :=
    Action.ok_of_toOption (by decide +kernel)
  exact (parsePatches_grammar hsource).2 twoBlocks rfl

end CellMachine
