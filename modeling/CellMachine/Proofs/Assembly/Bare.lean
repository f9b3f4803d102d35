import CellMachine.Proofs.Assembly.Steps

/-!
# Assemblies without conditionals

An assembly whose block has no levels of conditionals, and has skipped nothing, is bare. Where
statements are selected, a statement that belongs to no group does to the bare assembly what it does
to the assembly itself; where they are not, it does nothing to the bare assembly, unless it declares
a local.

* `Assembler.bare` — the assembly without levels.
* `Assembler.PlainStep`, `Assembler.Sound.plainStep` — what a statement outside groups does.
-/

namespace CellMachine

open CellMachine.Action

/-! ### Bare blocks -/

/-- The block without levels, which has skipped nothing. -/
def Block.bare (b : Block) : Block := { b with levels := [], skipped := 0 }

namespace Worksite

/-- The worksite with its block without levels. -/
def bare (w : Worksite) : Worksite := { w with block := w.block.bare }

/-- An emission does not look at the levels. -/
theorem onEmission_commutes {α : Type} (x : Action (Emission Placement) α) :
    Commutes bare (onEmission x) := by
  intro w
  unfold onEmission
  have hsame : w.bare.emission = w.emission := rfl
  rw [hsame]
  cases x w.emission with
  | ok v e => rfl
  | error failure e => rfl

end Worksite

namespace BlockCall

/-- The call is one to the emission of the block, as long as its branch is selected. -/
def IsGuarded : BlockCall → Prop
  | .emit _ _ | .label _ => True
  | _ => False

variable {call : BlockCall} {w w' : Worksite}

/-- In selected code such a call does not look at the levels. -/
theorem IsGuarded.bare (h : call.IsGuarded) (hactive : w.block.active) :
    call.perform w.bare = carry Worksite.bare (call.perform w) := by
  have hbare : w.bare.block.active = true := rfl
  cases call with
  | emit mnemonic operands =>
    show Worksite.emit mnemonic operands w.bare = carry _ (Worksite.emit mnemonic operands w)
    unfold Worksite.emit
    rw [Worksite.ifActive_eq, Worksite.ifActive_eq, if_pos hbare, if_pos hactive]
    exact Worksite.onEmission_commutes _ w
  | label name =>
    show Worksite.label name w.bare = carry _ (Worksite.label name w)
    unfold Worksite.label
    rw [Worksite.ifActive_eq, Worksite.ifActive_eq, if_pos hbare, if_pos hactive]
    exact Worksite.onEmission_commutes _ w
  | _ => cases h

/-- In code that is not selected such a call is counted at most. -/
theorem IsGuarded.skipped (h : call.IsGuarded) (hactive : ¬w.block.active) :
    ∃ skipped, call.perform w = .ok () { w with block := { w.block with skipped } } := by
  cases call with
  | emit mnemonic operands =>
    exact ⟨_, (Worksite.ifActive_eq ..).trans (if_neg hactive)⟩
  | label name =>
    exact ⟨w.block.skipped, (Worksite.ifActive_eq ..).trans (if_neg hactive)⟩
  | _ => cases h

/-- Such a call leaves the levels alone. -/
theorem IsGuarded.levels (h : call.IsGuarded) (hcall : call.perform w = .ok () w') :
    w'.block.levels = w.block.levels := by
  by_cases hactive : w.block.active
  · have hreach : ∃ c, call.reaching? w = some c := by
      cases call with
      | emit mnemonic operands => exact ⟨_, if_pos hactive⟩
      | label name => exact ⟨_, if_pos hactive⟩
      | _ => cases h
    obtain ⟨c, hreach⟩ := hreach
    rw [perform_of_reaching hreach] at hcall
    obtain ⟨e, -, rfl⟩ := Worksite.onEmission_ok hcall
    rfl
  · obtain ⟨skipped, hskip⟩ := h.skipped hactive
    rw [hskip] at hcall
    cases hcall
    rfl

end BlockCall

namespace Assembler

variable {a a₁ a₂ : Assembler} {st : Statement}

/-- The open levels of conditionals. -/
def levels (a : Assembler) : List Level := (a.block?.map Block.levels).getD []

/-- Whether statements are selected at present. -/
def active (a : Assembler) : Bool := activeAt a.levels

/-- The assembly without levels. -/
def bare (a : Assembler) : Assembler := { a with block? := a.block?.map Block.bare }

/-- In a routine the levels are those of its block. -/
theorem levels_of_block {b : Block} (h : a.block? = some b) : a.levels = b.levels := by
  unfold levels
  rw [h]
  rfl

/-- In a routine statements are selected as in its block. -/
theorem active_of_block {b : Block} (h : a.block? = some b) : a.active = b.active := by
  unfold active
  rw [levels_of_block h]
  rfl

/-- Outside routines all statements are selected. -/
theorem active_of_none (h : a.block? = none) : a.active = true := by
  unfold active levels
  rw [h]
  rfl

/-- Outside routines an assembly is bare. -/
theorem bare_of_none (h : a.block? = none) : a.bare = a := by
  obtain ⟨blockCells, program, block?, routine, reserve⟩ := a
  obtain rfl : block? = none := h
  rfl

/-- Statements that are not selected stand in a group of a routine. -/
theorem exists_block_of_inactive (h : a.active = false) :
    ∃ b, a.block? = some b ∧ b.active = false ∧ b.levels ≠ [] := by
  cases hb : a.block? with
  | none =>
    unfold active levels at h
    rw [hb] at h
    cases h
  | some b =>
    rw [active_of_block hb] at h
    refine ⟨b, rfl, h, fun hnil => ?_⟩
    unfold Block.active at h
    rw [hnil] at h
    cases h

/-! ### Calls to the emission -/

/-- The block did its work, and the rest of the assembly is as before. -/
structure Works (a a₁ : Assembler) : Prop where
  sound : a₁.Sound
  program : a₁.program = a.program
  levels : a₁.levels = a.levels
  inside : a₁.block?.isSome = a.block?.isSome
  skipped : a.active = false → a₁.bare = a.bare

/-- Doing nothing. -/
theorem Works.refl (hsound : a.Sound) : Works a a := ⟨hsound, rfl, rfl, rfl, fun _ => rfl⟩

/-- A call to the emission leaves all but the block alone. -/
theorem Sound.works (hsound : a.Sound) {call : BlockCall} (hguarded : call.IsGuarded)
    {outside : Failure} (h : onBlock outside call.perform a = .ok () a₁) :
    Works a a₁ ∧ (a.active → onBlock outside call.perform a.bare = .ok () a₁.bare) := by
  obtain ⟨b, w, hb, hcall, rfl⟩ := onBlock_ok h
  obtain ⟨calls, r, hworking⟩ := hsound.block b hb
  have hkeeps : call.KeepsScope := by
    cases call <;> trivial
  obtain ⟨hprogram, -, hnext⟩ := hworking.perform hkeeps hcall
  have hlevels := hguarded.levels hcall
  refine ⟨⟨⟨?_, ?_⟩, hprogram, ?_, by simp [hb], ?_⟩, ?_⟩
  · rintro b' ⟨⟩
    exact ⟨_, r, hnext⟩
  · rw [hprogram]
    exact hsound.locals
  · rw [levels_of_block hb]
    exact hlevels
  · intro hinactive
    rw [active_of_block hb] at hinactive
    obtain ⟨skipped, hskip⟩ := hguarded.skipped (w := ⟨b, a.program⟩) (by simp [hinactive])
    rw [hskip] at hcall
    cases hcall
    unfold bare
    rw [hb]
    rfl
  · intro hactive
    rw [active_of_block hb] at hactive
    have hbare := hguarded.bare (w := ⟨b, a.program⟩) hactive
    rw [hcall] at hbare
    have hblock : a.bare.block? = some b.bare := by
      unfold bare
      rw [hb]
      rfl
    exact onBlock_of_ok hblock hbare

/-- The label of a statement is a call to the emission. -/
theorem Sound.works_of_label (hsound : a.Sound) (h : label st a = .ok () a₁) :
    Works a a₁ ∧ (a.active → label st a.bare = .ok () a₁.bare) := by
  unfold label at h ⊢
  cases hlabel : st.label? with
  | none =>
    rw [hlabel] at h
    cases h
    exact ⟨.refl hsound, fun _ => rfl⟩
  | some name =>
    rw [hlabel] at h
    have hguarded : (BlockCall.label name).IsGuarded := trivial
    exact hsound.works hguarded h

/-! ### Statements outside groups -/

/-- A directive is carried out. -/
theorem operation_of_directive {op : String} (hop : st.op? = some op) (hdot : st.isDirective) :
    operation st = directive op st := by
  unfold operation
  rw [hop]
  exact if_pos hdot

/-- The operation of a statement outside groups, by what it is. -/
inductive PlainOperation (st : Statement) (a a₂ : Assembler) : Prop
  | nothing (hop : st.op? = none ∨ st.op? = some ".data") (hsame : a₂ = a)
  | emits (op : String) (operands : List Operand) (hop : st.op? = some op)
    (hinstruction : st.isDirective = false) (hoperands : st.operands = .ok operands)
    (hemit : onBlock (.misplaced (.outsideRoutine op)) (Worksite.emit op operands) a = .ok () a₂)
  | global (hop : st.op? = some ".global") (h : global st a = .ok () a₂)
  | begins (hop : st.op? = some ".routine") (h : beginRoutine st a = .ok () a₂)
  | binds (hop : st.op? = some ".local") (h : declareLocal st a = .ok () a₂)
  | ends (hop : st.op? = some ".end") (h : endRoutine st a = .ok () a₂)

/-- What ends well of the operation of a statement outside groups. -/
theorem plainOperation_of_ok (hplain : ¬st.IsConditional) (h : operation st a = .ok () a₂) :
    PlainOperation st a a₂ := by
  cases hop : st.op? with
  | none =>
    unfold operation at h
    rw [hop] at h
    cases h
    exact .nothing (.inl hop) rfl
  | some op =>
    cases hdot : st.isDirective with
    | true =>
      rw [operation_of_directive hop hdot] at h
      unfold Statement.IsConditional at hplain
      rw [hop] at hplain
      unfold directive at h
      split at h
      · cases h
        exact .nothing (.inr hop) rfl
      · exact .global hop h
      · exact .begins hop h
      · exact .binds hop h
      · exact .ends hop h
      all_goals first | cases h | exact absurd (by decide) hplain
    | false =>
      unfold operation at h
      rw [hop] at h
      dsimp only at h
      rw [hdot] at h
      obtain ⟨_, _, hget, h₁⟩ := ok_of_bind h
      cases hget
      obtain ⟨-, h₂⟩ := ok_of_refuse h₁
      obtain ⟨operands, _, hoperands₀, hemit⟩ := ok_of_bind h₂
      obtain ⟨hoperands, rfl⟩ := ok_of_ofExcept hoperands₀
      exact .emits op operands hop hdot hoperands hemit

/-- What a statement outside groups has done, to the assembly and to the bare one. -/
structure PlainStep (st : Statement) (a a₂ : Assembler) : Prop where
  sound : a₂.Sound
  globals : a₂.globals = a.globals ++ st.global?.toList
  opened : a₂.block?.isSome → a.block?.isSome ∨ st.op? = some ".routine"
  levels : a₂.levels = a.levels
  active : a.active → operation st a.bare = .ok () a₂.bare
  /-- A statement that is not selected does nothing, unless it declares a local. -/
  inactive : a.active = false → (st.op? ≠ some ".global" ∧ st.op? ≠ some ".routine") ∧
    if st.op? = some ".local" then operation st a.bare = .ok () a₂.bare else a₂.bare = a.bare

/-- A statement with another operation declares no global. -/
theorem global?_eq_none (hop : st.op? ≠ some ".global") : st.global? = none := if_neg hop

/-- The assembly is left alone. -/
theorem PlainStep.of_nothing (hsound : a.Sound) (hop : st.op? = none ∨ st.op? = some ".data") :
    PlainStep st a a := by
  have hother : st.op? ≠ some ".global" ∧ st.op? ≠ some ".routine" ∧ st.op? ≠ some ".local" := by
    rcases hop with hop | hop <;> simp [hop]
  have hrun (a : Assembler) : operation st a = .ok () a := by
    rcases hop with hop | hop
    · unfold operation
      rw [hop]
      rfl
    · rw [operation_of_directive hop (by simp [Statement.isDirective, hop])]
      rfl
  refine ⟨hsound, ?_, .inl, rfl, fun _ => hrun _, fun _ => ⟨⟨hother.1, hother.2.1⟩, ?_⟩⟩
  · rw [global?_eq_none hother.1, Option.toList_none, List.append_nil]
  · rw [if_neg hother.2.2]

/-- An instruction is a call to the emission. -/
theorem PlainStep.of_emit (hsound : a.Sound) {op : String} {operands : List Operand}
    (hop : st.op? = some op) (hinstruction : st.isDirective = false)
    (hoperands : st.operands = .ok operands)
    (hemit : onBlock (.misplaced (.outsideRoutine op)) (Worksite.emit op operands) a =
      .ok () a₂) : PlainStep st a a₂ := by
  have hother {name : String} (hdot : name.toList.head? = some '.') : st.op? ≠ some name := by
    intro hname
    simp [Statement.isDirective, hname, hdot] at hinstruction
  have hguarded : (BlockCall.emit op operands).IsGuarded := trivial
  obtain ⟨hworks, hactive⟩ := hsound.works hguarded hemit
  refine ⟨hworks.sound, ?_, fun h => .inl (hworks.inside ▸ h), hworks.levels, fun h => ?_,
    fun h => ⟨⟨hother rfl, hother rfl⟩, ?_⟩⟩
  · rw [global?_eq_none (hother rfl), Option.toList_none, List.append_nil]
    unfold Assembler.globals
    rw [hworks.program]
  · obtain ⟨b, -, hb, -, -⟩ := onBlock_ok hemit
    have hinside : a.bare.block?.isNone = false := by
      unfold bare
      rw [hb]
      rfl
    unfold operation
    rw [hop]
    dsimp only
    rw [hinstruction]
    refine (bind_of_ok rfl).trans ?_
    rw [hinside, hoperands]
    exact hactive h
  · rw [if_neg (hother rfl)]
    exact hworks.skipped h

/-- A global is declared. -/
theorem PlainStep.of_global (hsound : a.Sound) (hop : st.op? = some ".global")
    (h : global st a = .ok () a₂) : PlainStep st a a₂ := by
  obtain ⟨hnone, name, init, addr, p, hname, hinit, hdeclare, hsame⟩ := global_ok h
  have hnone₂ : a₂.block? = none := by
    rw [hsame]
    exact hnone
  have hglobal : st.global? = some (name, init) := by
    unfold Statement.global?
    rw [if_pos hop, hname, hinit]
  rcases Program.declareGlobal_cases name init a.program with ⟨failure, herror⟩ | ⟨-, -, hok⟩
  · rw [herror] at hdeclare
    cases hdeclare
  rw [hok] at hdeclare
  cases hdeclare
  refine ⟨⟨fun b hb => ?_, ?_⟩, ?_, fun hb => ?_, ?_, fun _ => ?_, fun hinactive => ?_⟩
  · rw [hnone₂] at hb
    cases hb
  · rw [hsame]
    exact hsound.locals
  · rw [hglobal, hsame]
    exact List.map_append
  · rw [hnone₂] at hb
    cases hb
  · rw [hsame]
    rfl
  · rw [bare_of_none hnone, bare_of_none hnone₂,
      operation_of_directive hop (by simp [Statement.isDirective, hop])]
    exact h
  · rw [active_of_none hnone] at hinactive
    cases hinactive

/-- A block that was just opened is bare. -/
theorem bare_of_openBlock {capacity : Int} {p p' : Program} {b : Block}
    (h : Program.openBlock capacity p = .ok b p') : b.bare = b := by
  unfold Program.openBlock at h
  split at h
  · cases h
  · split at h
    · cases h
    · split at h
      · cases h
      · cases h
        rfl

/-- A routine begins. -/
theorem PlainStep.of_begin (hsound : a.Sound) (hop : st.op? = some ".routine")
    (h : beginRoutine st a = .ok () a₂) : PlainStep st a a₂ := by
  obtain ⟨hnone, name, reserve, p, b, p', hbegin, hopen, hsame⟩ := beginRoutine_ok h
  obtain ⟨-, -, hp', r, -, hworking⟩ := Block.Working.of_openBlock hopen
  have hblock : a₂.block? = some b := by rw [hsame]
  have hbare : a₂.bare = a₂ := by
    rw [hsame]
    unfold bare
    rw [Option.map_some, bare_of_openBlock hopen]
  rcases Program.beginRoutine_cases name a.program with ⟨failure, herror⟩ | ⟨-, -, hok⟩
  · rw [herror] at hbegin
    cases hbegin
  rw [hok] at hbegin
  cases hbegin
  refine ⟨⟨fun b' hb' => ?_, ?_⟩, ?_, fun _ => .inr hop, ?_, fun _ => ?_, fun hinactive => ?_⟩
  · rw [hblock] at hb'
    cases hb'
    exact ⟨[], r, hworking⟩
  · rw [hsame, hp']
    intro frame hframe
    rcases List.mem_cons.mp hframe with rfl | hframe
    · exact fun _ hs => nomatch hs
    · exact hsound.locals frame hframe
  · rw [global?_eq_none (by simp [hop]), hsame, hp']
    exact (List.append_nil _).symm
  · rw [levels_of_block hblock, ← bare_of_openBlock hopen]
    unfold Assembler.levels
    rw [hnone]
    rfl
  · have hdirective : st.isDirective := by simp [Statement.isDirective, hop]
    rw [bare_of_none hnone, hbare, operation_of_directive hop hdirective]
    exact h
  · rw [active_of_none hnone] at hinactive
    cases hinactive

/-- A local is declared for the frames of the scope. -/
theorem declareLocal_scope {name : String} {offset : Cell} {p p' : Program}
    (h : Program.declareLocal name offset p = .ok () p') :
    p'.scope.globals = p.scope.globals ∧
      ((∀ frame ∈ p.scope.frames, ∀ s ∈ frame, s.contents? = none) →
        ∀ frame ∈ p'.scope.frames, ∀ s ∈ frame, s.contents? = none) := by
  unfold Program.declareLocal Scope.declareLocal at h
  cases hframes : p.scope.frames with
  | nil =>
    rw [hframes] at h
    cases h
  | cons inner outer =>
    rw [hframes] at h
    dsimp only at h
    split at h
    · next hscope =>
      split at hscope
      · cases hscope
      · cases hscope
        cases h
        refine ⟨rfl, fun hlocals frame hframe s hs => ?_⟩
        rcases List.mem_cons.mp hframe with rfl | hframe
        · rcases List.mem_cons.mp hs with rfl | hs
          · rfl
          · exact hlocals inner List.mem_cons_self s hs
        · exact hlocals frame (List.mem_cons_of_mem _ hframe) s hs
    · cases h

/-- Declaring a local does not look at the levels. -/
theorem declareLocal_commutes (st : Statement) : Commutes bare (declareLocal st) := by
  have hprogram {α : Type} (x : Action Program α) : Commutes bare (onProgram x) := by
    intro a
    unfold onProgram
    have hsame : a.bare.program = a.program := rfl
    rw [hsame]
    cases x a.program with
    | ok v p => rfl
    | error failure p => rfl
  have hneed : Commutes bare (needRoutine ".local" st 2) := by
    refine .get_bind (fun a => ?_) fun a => .refuse (.ofExcept _)
    unfold bare
    rw [Option.isNone_map]
  exact .bind hneed fun _ => .bind (.ofExcept _) fun _ => .bind (.ofExcept _) fun _ => hprogram _

/-- A local is declared, whether the statement is selected or not. -/
theorem PlainStep.of_local (hsound : a.Sound) (hop : st.op? = some ".local")
    (h : declareLocal st a = .ok () a₂) : PlainStep st a a₂ := by
  have hrun : operation st a.bare = .ok () a₂.bare := by
    rw [operation_of_directive hop (by simp [Statement.isDirective, hop])]
    exact (declareLocal_commutes st a).trans (congrArg (carry bare) h)
  obtain ⟨hinside, name, offset, p, hdeclare, rfl⟩ := declareLocal_ok h
  obtain ⟨hglobals, hlocals⟩ := declareLocal_scope hdeclare
  refine ⟨⟨hsound.block, hlocals hsound.locals⟩, ?_, .inl, rfl, fun _ => hrun, fun _ => ?_⟩
  · rw [global?_eq_none (by simp [hop]), Option.toList_none, List.append_nil]
    exact congrArg (List.map fun g => (g.name, g.init)) hglobals
  · exact ⟨by simp [hop], by rw [if_pos hop]; exact hrun⟩

/-- Ending a routine closes a frame of the scope. -/
theorem endRoutine_scope {reserve : Int} {entry : RoutineEntry} {p p' : Program}
    (h : Program.endRoutine reserve p = .ok entry p') :
    p'.scope.globals = p.scope.globals ∧ ∀ frame ∈ p'.scope.frames, frame ∈ p.scope.frames := by
  unfold Program.endRoutine Scope.pop at h
  cases hcurrent : p.current? with
  | none =>
    rw [hcurrent] at h
    cases h
  | some r =>
    rw [hcurrent] at h
    dsimp only [Program.append] at h
    split at h
    · cases h
    · split at h
      · cases h
      · cases hframes : p.scope.frames with
        | nil =>
          rw [hframes] at h
          cases h
        | cons inner outer =>
          rw [hframes] at h
          cases h
          exact ⟨rfl, fun frame hframe => List.mem_cons_of_mem _ hframe⟩

/-- A block is closed without levels, so its levels do not matter. -/
theorem close_bare {b : Block} {p : Program} {routine : Routine} {w : Worksite}
    (h : Worksite.close ⟨b, p⟩ = .ok routine w) :
    b.levels = [] ∧ Worksite.close ⟨b.bare, p⟩ = .ok routine w.bare := by
  rw [Worksite.close_eq] at h ⊢
  have hsame : (Worksite.mk b.bare p).emission = (Worksite.mk b p).emission := rfl
  rw [hsame]
  split at h
  · cases h
  · next hlevels =>
    refine ⟨by simpa using hlevels, ?_⟩
    cases hfinal : Emission.finalize (Worksite.mk b p).emission with
    | error failure e =>
      rw [hfinal] at h
      cases h
    | ok routine e =>
      rw [hfinal] at h
      cases h
      rfl

/-- A routine ends. -/
theorem PlainStep.of_end (hsound : a.Sound) (hop : st.op? = some ".end")
    (h : endRoutine st a = .ok () a₂) : PlainStep st a a₂ := by
  obtain ⟨hcount, b, routine, w, entry, p, hb, hclose, hend, hsame⟩ := endRoutine_iff.mp h
  obtain ⟨hlevels, hclose'⟩ := close_bare hclose
  have hnone : a₂.block? = none := by rw [hsame]
  have hactive : a.active = true := by
    unfold Assembler.active
    rw [levels_of_block hb, hlevels]
    rfl
  obtain ⟨hglobals, hframes⟩ := endRoutine_scope hend
  have hscope : w.program.scope = a.program.scope := by
    obtain ⟨calls, r, hworking⟩ := hsound.block b hb
    rcases Worksite.close_cases hworking a.program with ⟨failure, herror⟩ | ⟨_, _, _, hok, hp, -⟩
    · rw [herror] at hclose
      cases hclose
    · rw [hok] at hclose
      cases hclose
      rw [hp]
      rfl
  rw [hscope] at hglobals hframes
  refine ⟨⟨fun b' hb' => ?_, ?_⟩, ?_, fun hb' => ?_, ?_, fun _ => ?_, fun hinactive => ?_⟩
  · rw [hnone] at hb'
    cases hb'
  · rw [hsame]
    exact fun frame hframe => hsound.locals frame (hframes frame hframe)
  · rw [global?_eq_none (by simp [hop]), Option.toList_none, List.append_nil, hsame]
    exact congrArg (List.map fun g => (g.name, g.init)) hglobals
  · rw [hnone] at hb'
    cases hb'
  · rw [levels_of_block hb, hlevels, hsame]
    rfl
  · rw [operation_of_directive hop (by simp [Statement.isDirective, hop])]
    have hblock : a.bare.block? = some b.bare := by
      unfold bare
      rw [hb]
      rfl
    exact endRoutine_iff.mpr
      ⟨hcount, b.bare, routine, w.bare, entry, p, hblock, hclose', hend, by rw [hsame]; rfl⟩
  · rw [hactive] at hinactive
    cases hinactive

/-- **What a statement outside groups does to the assembly it does to the bare one**, if it is
selected; if it is not, only locals are declared. -/
theorem Sound.plainStep (hsound : a.Sound) (hplain : ¬st.IsConditional)
    (h : operation st a = .ok () a₂) : PlainStep st a a₂ := by
  cases plainOperation_of_ok hplain h with
  | nothing hop hsame =>
    rw [hsame]
    exact .of_nothing hsound hop
  | emits op operands hop hinstruction hoperands hemit =>
    exact .of_emit hsound hop hinstruction hoperands hemit
  | global hop h => exact .of_global hsound hop h
  | begins hop h => exact .of_begin hsound hop h
  | binds hop h => exact .of_local hsound hop h
  | ends hop h => exact .of_end hsound hop h

end Assembler

end CellMachine
