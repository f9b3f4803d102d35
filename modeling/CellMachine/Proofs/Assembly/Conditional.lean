import CellMachine.Proofs.Assembly.Replacement

/-!
# Conditional assembly

Conditional assembly leaves out the branches that are not selected, except for the locals that they
declare: these stay known up to the end of the routine. So a source is assembled like the statements
of its selected branches, with those locals among them.

* `Code.follows`, `Branches.follows` — **selected statements replace a source with conditionals.**
* `exists_code` — an assembled source has balanced groups.
* `assembleStatements_kept` — what is selected, with the locals, gives the same image.
* `assemble_select` — **a source is assembled like its selected statements**, if these locals are
  kept or there are none.
-/

namespace CellMachine

open CellMachine.Action

/-! ### Selected statements -/

open Assembler

/-- Locals of one list after the other. -/
theorem localLines_append (l l' : List Statement) :
    localLines (l ++ l') = localLines l ++ localLines l' := List.flatMap_append

/-- A statement between branches declares no local. -/
theorem localLines_cons_of_conditional {st : Statement} (hcond : st.IsConditional)
    (l : List Statement) : localLines (st :: l) = localLines l := by
  have hlocal : st.op? ≠ some ".local" := by
    obtain ⟨op, hmem, hop⟩ := hcond
    intro hlocal
    obtain rfl := Option.some.inj (hop.symm.trans hlocal)
    exact absurd hmem (by decide)
  show st.localLine ++ localLines l = localLines l
  rw [show st.localLine = [] from if_neg hlocal, List.nil_append]

section follows

variable (more : List (String × Cell))

/-- The statements that a code selects, with the locals of the branches that it does not. -/
def Code.kept (code : Code) : List Statement := code.select (Statement.holds more) localLines

/-- The statements that branches select, with the locals of those that they do not. -/
def Branches.kept (tail : Branches) : List Statement :=
  tail.select (Statement.holds more) localLines

/-- Selected statements can stand in place of a code where it is selected; where it is not, its
locals can. -/
def Code.Follows (code : Code) : Prop := ∀ ⦃a a₂ : Assembler⦄, Runs more code.source a a₂ →
  a₂.levels = a.levels ∧ (a.active → Replaces code.source (code.kept more) a a₂) ∧
    (a.active = false → Replaces code.source (localLines code.source) a a₂)

/-- What can stand in place of branches, by the level of their group: their locals if they cannot be
selected any more, in front of them the label that ends the branch before if that one was selected,
or what they select. -/
def Branches.Follows (tail : Branches) : Prop := ∀ ⦃a a₂ : Assembler⦄ ⦃level : Level⦄
    ⦃levels : List Level⦄, Runs more tail.source a a₂ → a.levels = level :: levels →
  a₂.levels = levels ∧
    (level.active = false → level.outer = false ∨ level.taken = true →
      Replaces tail.source (localLines tail.source) a a₂) ∧
    (level.active = true → level.taken = true →
      Replaces tail.source (tail.first.labelLine ++ localLines tail.source) a a₂) ∧
    (level.active = false → level.outer = true → level.taken = false →
      Replaces tail.source (tail.kept more) a a₂)

variable {more} {a a₂ : Assembler} {level : Level} {levels : List Level}

/-- A branch and the branches after it. -/
theorem Branches.Follows.branch {body : Code} {tail : Branches} (hbody : body.Follows more)
    (htail : tail.Follows more) (hruns : Runs more (body.source ++ tail.source) a a₂)
    (hlevels : a.levels = level :: levels) :
    a₂.levels = levels ∧
      (level.active = false → level.outer = false ∨ level.taken = true →
        Replaces (body.source ++ tail.source)
          (localLines body.source ++ localLines tail.source) a a₂) ∧
      (level.outer = true → level.active = level.taken →
        Replaces (body.source ++ tail.source)
          (if level.taken then body.kept more ++ tail.first.labelLine ++ localLines tail.source
            else localLines body.source ++ tail.kept more) a a₂) := by
  obtain ⟨a₁, hfirst, hsecond⟩ := hruns.split
  obtain ⟨hsame, hselected, hlocals⟩ := hbody hfirst
  obtain ⟨hafter, hclosed, hended, hopen⟩ := htail hsecond (hsame.trans hlevels)
  have hactive : a.active = level.active := by
    unfold Assembler.active
    rw [hlevels]
    rfl
  refine ⟨hafter, fun hinactive hnever => ?_, fun houter htaken => ?_⟩
  · exact (hlocals (hactive.trans hinactive)).append (hclosed hinactive hnever)
  · cases ht : level.taken with
    | true =>
      rw [ht] at htaken
      rw [if_pos rfl, List.append_assoc]
      exact (hselected (hactive.trans htaken)).append (hended htaken ht)
    | false =>
      rw [ht] at htaken
      rw [if_neg Bool.false_ne_true]
      exact (hlocals (hactive.trans htaken)).append (hopen htaken houter ht)

/-- In a group, statements are selected as its level says. -/
theorem active_of_levels (hlevels : a.levels = level :: levels) : a.active = level.active := by
  unfold Assembler.active
  rw [hlevels]
  rfl

/-- The end of a group is replaced by its label, if the last branch was selected. -/
theorem Branches.follows_close (stop : Statement) (closes : stop.op? = some ".endif") :
    (Branches.close stop closes).Follows more := by
  intro a a₂ level levels hruns hlevels
  have hcond : stop.IsConditional := ⟨".endif", by decide, closes⟩
  have hstep := hruns.turnStep hcond
  obtain ⟨level', hbefore⟩ := (hstep.turn_of_op closes).of_endif
  have hactive := active_of_levels hlevels
  have hnone : localLines (Branches.close stop closes).source = [] :=
    localLines_cons_of_conditional hcond []
  rw [hlevels] at hbefore
  refine ⟨(List.cons.inj hbefore).2.symm, fun hinactive _ => ?_, fun hended _ => ?_,
    fun hinactive _ _ => ?_⟩
  · rw [hnone]
    exact hstep.inactive (hactive.trans hinactive)
  · rw [hnone, List.append_nil]
    exact hstep.active (hactive.trans hended)
  · exact hstep.inactive (hactive.trans hinactive)

mutual

/-- **Selected statements replace a source with conditionals**, up to locals. -/
theorem Code.follows : (code : Code) → code.Follows more
  | .done => by
    intro a a₂ hruns
    cases hruns.run
    exact ⟨rfl, fun _ => .nil, fun _ => .nil⟩
  | .line st plain rest => by
    intro a a₂ hruns
    have hruns : Runs more ([st] ++ rest.source) a a₂ := hruns
    obtain ⟨a₁, hfirst, hrest⟩ := hruns.split
    obtain ⟨hsame, hselected, hlocals⟩ := rest.follows hrest
    have hlevels := hfirst.sound.levels_of_plain plain hfirst.statement
    have hactive : a₁.active = a.active := congrArg activeAt hlevels
    refine ⟨hsame.trans hlevels, fun h => ?_, fun h => ?_⟩
    · exact (hfirst.sound.replaces_self plain h hfirst.statement).append
        (hselected (hactive.trans h))
    · exact (hfirst.sound.replaces_local plain h hfirst.statement).append
        (hlocals (hactive.trans h))
  | .group start opens body tail rest => by
    intro a a₂ hruns
    have hcond : start.IsConditional := ⟨".if", by decide, opens⟩
    have hruns : Runs more ([start] ++ (body.source ++ tail.source ++ rest.source)) a a₂ := hruns
    obtain ⟨a₁, hstart, hgroup⟩ := hruns.split
    obtain ⟨a', hbranch, hrest⟩ := hgroup.split
    have hstep := hstart.turnStep hcond
    have hlevels := (hstep.turn_of_op opens).of_if
    obtain ⟨hafter, hclosed, hopen⟩ :=
      Branches.Follows.branch body.follows tail.follows hbranch hlevels
    obtain ⟨hsame, hselected, hlocals⟩ := rest.follows hrest
    have hactive : a'.active = a.active := congrArg activeAt hafter
    refine ⟨hsame.trans hafter, fun h => ?_, fun h => ?_⟩
    · have houter : activeAt a.levels = true := h
      have hkept : (Code.group start opens body tail rest).kept more = start.labelLine ++
          ((if start.holds more
            then body.kept more ++ tail.first.labelLine ++ localLines tail.source
            else localLines body.source ++ tail.kept more) ++ rest.kept more) :=
        List.append_assoc _ _ _
      rw [hkept]
      exact (hstep.active h).append
        ((hopen houter (by simp [houter])).append (hselected (hactive.trans h)))
    · have houter : activeAt a.levels = false := h
      have hreplaces := (hstep.inactive h).append
        ((hclosed (by simp [houter]) (.inl houter)).append (hlocals (hactive.trans h)))
      show Replaces _ (localLines (start :: (body.source ++ tail.source ++ rest.source))) a a₂
      rw [localLines_cons_of_conditional hcond, localLines_append, localLines_append]
      exact hreplaces

/-- **What branches select replaces them**, up to locals. -/
theorem Branches.follows : (tail : Branches) → tail.Follows more
  | .close stop closes => Branches.follows_close stop closes
  | .otherwise st turns body stop closes => by
    intro a a₂ level levels hruns hlevels
    have hcond : st.IsConditional := ⟨".else", by decide, turns⟩
    have hstop : stop.IsConditional := ⟨".endif", by decide, closes⟩
    have hruns : Runs more ([st] ++ (body.source ++ (Branches.close stop closes).source)) a a₂ :=
      hruns
    obtain ⟨a₁, hfirst, hbranch⟩ := hruns.split
    have hstep := hfirst.turnStep hcond
    obtain ⟨_, _, hbefore, -, hlevels₁⟩ := (hstep.turn_of_op turns).of_else
    obtain ⟨rfl, rfl⟩ := List.cons.inj (hlevels.symm.trans hbefore)
    obtain ⟨hafter, hclosed, hopen⟩ :=
      Branches.Follows.branch body.follows (Branches.follows_close stop closes) hbranch hlevels₁
    have hactive := active_of_levels hlevels
    have hlocals : localLines (Branches.otherwise st turns body stop closes).source =
        localLines body.source ++ localLines (Branches.close stop closes).source := by
      rw [← localLines_append]
      exact localLines_cons_of_conditional hcond _
    refine ⟨hafter, fun h hnever => ?_, fun h htaken => ?_, fun h houter htaken => ?_⟩
    · rw [hlocals]
      exact (hstep.inactive (hactive.trans h)).append
        (hclosed (by rcases hnever with h | h <;> simp [h]) (.inr rfl))
    · rw [hlocals]
      exact (hstep.active (hactive.trans h)).append (hclosed (by simp [htaken]) (.inr rfl))
    · have hreplaces := (hstep.inactive (hactive.trans h)).append
        (hopen houter (by simp [houter, htaken]))
      rw [if_pos rfl] at hreplaces
      have hnone : localLines (Branches.close stop closes).source = [] :=
        localLines_cons_of_conditional hstop []
      rw [hnone, List.append_nil] at hreplaces
      exact hreplaces
  | .next st turns body tail => by
    intro a a₂ level levels hruns hlevels
    have hcond : st.IsConditional := ⟨".elseif", by decide, turns⟩
    have hruns : Runs more ([st] ++ (body.source ++ tail.source)) a a₂ := hruns
    obtain ⟨a₁, hfirst, hbranch⟩ := hruns.split
    have hstep := hfirst.turnStep hcond
    obtain ⟨_, _, hbefore, -, hlevels₁⟩ := (hstep.turn_of_op turns).of_elseif
    obtain ⟨rfl, rfl⟩ := List.cons.inj (hlevels.symm.trans hbefore)
    obtain ⟨hafter, hclosed, hopen⟩ :=
      Branches.Follows.branch body.follows tail.follows hbranch hlevels₁
    have hactive := active_of_levels hlevels
    have hlocals : localLines (Branches.next st turns body tail).source =
        localLines body.source ++ localLines tail.source := by
      rw [← localLines_append]
      exact localLines_cons_of_conditional hcond _
    refine ⟨hafter, fun h hnever => ?_, fun h htaken => ?_, fun h houter htaken => ?_⟩
    · rw [hlocals]
      refine (hstep.inactive (hactive.trans h)).append (hclosed ?_ ?_)
      · rcases hnever with h | h <;> simp [h]
      · exact hnever.imp id fun h => by simp [h]
    · rw [hlocals]
      exact (hstep.active (hactive.trans h)).append
        (hclosed (by simp [htaken]) (.inr (by simp [htaken])))
    · have hreplaces := (hstep.inactive (hactive.trans h)).append
        (hopen houter (by simp [houter, htaken]))
      simp only [htaken, Bool.false_or] at hreplaces
      exact hreplaces

end

end follows

/-! ### Balanced groups -/

/-- Statements end the open groups, innermost first, and are balanced after that. The flags say in
which of them the last branch has been reached. -/
def Closes : List Bool → List Statement → Prop
  | [], sts => ∃ code : Code, code.source = sts
  | sawElse :: outer, sts => ∃ (body : Code) (tail : Branches) (rest : List Statement),
    sts = body.source ++ tail.source ++ rest ∧
      (sawElse = true → ∃ stop closes, tail = .close stop closes) ∧ Closes outer rest

namespace Closes

variable {st : Statement} {sts : List Statement} {flags : List Bool}

/-- One more statement outside groups. -/
theorem line (hplain : ¬st.IsConditional) (h : Closes flags sts) : Closes flags (st :: sts) := by
  cases flags with
  | nil =>
    obtain ⟨code, rfl⟩ := h
    exact ⟨.line st hplain code, rfl⟩
  | cons sawElse outer =>
    obtain ⟨body, tail, rest, rfl, hlast, hrest⟩ := h
    exact ⟨.line st hplain body, tail, rest, rfl, hlast, hrest⟩

/-- One more group. -/
theorem group (hop : st.op? = some ".if") (h : Closes (false :: flags) sts) :
    Closes flags (st :: sts) := by
  obtain ⟨body, tail, rest, rfl, -, hrest⟩ := h
  cases flags with
  | nil =>
    obtain ⟨code, rfl⟩ := hrest
    exact ⟨.group st hop body tail code, rfl⟩
  | cons sawElse outer =>
    obtain ⟨body', tail', rest', rfl, hlast, hrest⟩ := hrest
    refine ⟨.group st hop body tail body', tail', rest', ?_, hlast, hrest⟩
    simp [Code.source]

/-- A directive of conditionals. -/
theorem turn {c : Bool} {op : String} (hop : st.op? = some op) {before after : List Level}
    (hturn : Turn c op before after) (h : Closes (after.map Level.sawElse) sts) :
    Closes (before.map Level.sawElse) (st :: sts) := by
  cases hturn with
  | opens hif => exact h.group (hif ▸ hop)
  | next helseif level levels hfirst =>
    obtain ⟨body, tail, rest, rfl, -, hrest⟩ := h
    refine ⟨.done, .next st (helseif ▸ hop) body tail, rest, by simp [Code.source, Branches.source],
      fun hlast => ?_, hrest⟩
    rw [hfirst] at hlast
    cases hlast
  | otherwise helse level levels hfirst =>
    obtain ⟨body, tail, rest, rfl, hclose, hrest⟩ := h
    obtain ⟨stop, closes, rfl⟩ := hclose rfl
    refine ⟨.done, .otherwise st (helse ▸ hop) body stop closes, rest,
      by simp [Code.source, Branches.source], fun hlast => ?_, hrest⟩
    rw [hfirst] at hlast
    cases hlast
  | closes hendif level levels =>
    exact ⟨.done, .close st (hendif ▸ hop), sts, rfl, fun _ => ⟨st, hendif ▸ hop, rfl⟩, h⟩

/-- **Statements that leave no group open are balanced.** -/
theorem of_run : ∀ {a a₂ : Assembler}, a.Sound → Assembler.statements sts a = .ok () a₂ →
    a₂.levels = [] → Closes (a.levels.map Level.sawElse) sts := by
  induction sts with
  | nil =>
    rintro a _ - ⟨⟩ hlevels
    rw [hlevels]
    exact ⟨.done, rfl⟩
  | cons st rest ih =>
    intro a a₂ hsound h hlevels
    obtain ⟨a₁, hfirst, hrest⟩ := statements_cons_iff.mp h
    have hcloses := ih (hsound.statement hfirst).1 hrest hlevels
    by_cases hcond : st.IsConditional
    · obtain ⟨op, hop, hturn⟩ := (hsound.turnStep (List.prefix_refl _) hcond hfirst).turn
      exact turn hop hturn hcloses
    · rw [hsound.levels_of_plain hcond hfirst] at hcloses
      exact hcloses.line hcond

end Closes

/-! ### Assembled sources -/

/-- What it takes to assemble statements. -/
theorem assembleStatements_iff {sts : List Statement} {options : AssemblyOptions} {img : Image} :
    assembleStatements sts options = .ok img ↔
      ∃ cells program a, dataSize sts options.dataCells = .ok cells ∧
        Program.new options.dataBase cells = .ok program ∧
        Assembler.statements sts { blockCells := options.blockCells, program } = .ok () a ∧
        a.block? = none ∧ a.program.link = .ok img := by
  unfold assembleStatements
  constructor
  · intro h
    cases hsize : dataSize sts options.dataCells with
    | error failure =>
      rw [hsize] at h
      cases h
    | ok cells =>
      rw [hsize] at h
      dsimp only [bind, Except.bind] at h
      cases hnew : Program.new options.dataBase cells with
      | error failure =>
        rw [hnew] at h
        cases h
      | ok program =>
        rw [hnew] at h
        dsimp only at h
        split at h
        · cases h
        · next a hrun =>
          split at h
          · cases h
          · next hnone => exact ⟨cells, program, a, rfl, hnew, hrun, by simpa using hnone, h⟩
  · rintro ⟨cells, program, a, hsize, hnew, hrun, hnone, hlink⟩
    rw [hsize]
    dsimp only [bind, Except.bind]
    rw [hnew]
    dsimp only
    rw [hrun]
    dsimp only
    rw [hnone]
    exact hlink

/-- A new program has no variables. -/
theorem scope_of_new {dataBase : Addr} {cells : Int} {p : Program}
    (h : Program.new dataBase cells = .ok p) : p.scope = {} := by
  unfold Program.new at h
  split at h
  · cases h
  · cases h
    rfl

/-- An assembly is sound at its start. -/
theorem sound_start {a : Assembler} (hnone : a.block? = none) (hscope : a.program.scope = {}) :
    a.Sound := by
  refine ⟨fun b hb => ?_, ?_⟩
  · rw [hnone] at hb
    cases hb
  · rw [hscope]
    exact nofun

/-- An assembled source has balanced groups. -/
theorem exists_code {sts : List Statement} {options : AssemblyOptions} {img : Image}
    (h : assembleStatements sts options = .ok img) : ∃ code : Code, code.source = sts := by
  obtain ⟨cells, program, a, -, hnew, hrun, hnone, -⟩ := assembleStatements_iff.mp h
  refine Closes.of_run (sound_start rfl (scope_of_new hnew)) hrun ?_
  unfold Assembler.levels
  rw [hnone]
  rfl

/-- The scan for the size of the data segment succeeds where the size is found. -/
theorem exists_scan {sts : List Statement} {fallback cells : Int}
    (h : dataSize sts fallback = .ok cells) : ∃ c, SizeScan.run sts ⟨false, none, 0⟩ = .ok c := by
  unfold dataSize at h
  rw [SizeScan.scanSizes_eq sts ⟨false, none, 0⟩] at h
  cases hscan : SizeScan.run sts ⟨false, none, 0⟩ with
  | error failure =>
    rw [hscan] at h
    cases h
  | ok c => exact ⟨c, rfl⟩

/-- **Statements are assembled like the selected ones among them**, with the locals of branches that
are not selected. The data segment has the same size. -/
theorem assembleStatements_kept {code : Code} {options : AssemblyOptions} {img : Image}
    (h : assembleStatements code.source options = .ok img) :
    dataSize (code.kept (globalsOf code.source)) options.dataCells =
        dataSize code.source options.dataCells ∧
      assembleStatements (code.kept (globalsOf code.source)) options = .ok img := by
  obtain ⟨cells, program, a, hsize, hnew, hrun, hnone, hlink⟩ := assembleStatements_iff.mp h
  have hscope := scope_of_new hnew
  have hruns : Runs (globalsOf code.source) code.source
      { blockCells := options.blockCells, program } a := by
    refine ⟨sound_start rfl hscope, ?_, hrun⟩
    unfold Assembler.globals
    rw [hscope]
    exact List.prefix_refl _
  obtain ⟨-, hreplaces, -⟩ := code.follows hruns
  have hreplaced := hreplaces (active_of_none rfl)
  obtain ⟨c, hscan⟩ := exists_scan hsize
  have hkept : dataSize (code.kept (globalsOf code.source)) options.dataCells =
      dataSize code.source options.dataCells := by
    unfold dataSize
    rw [SizeScan.scanSizes_eq _ ⟨false, none, 0⟩, SizeScan.scanSizes_eq _ ⟨false, none, 0⟩, hscan,
      (hreplaced.scan _ c nofun hscan).1]
  have hselected := hreplaced.run
  rw [bare_of_none hnone] at hselected
  exact ⟨hkept, assembleStatements_iff.mpr
    ⟨cells, program, a, hkept.trans hsize, hnew, hselected, hnone, hlink⟩⟩

/-- **A source is assembled like its selected statements**, with the locals that are declared in
branches that are not selected; without these if there are none. The data segment has the same
size. -/
theorem assemble_select {source : RawText} {options : AssemblyOptions} {img : Image}
    (h : assemble source options = .ok img) :
    ∃ sts, parseSource source = .ok sts ∧ (∃ code : Code, code.source = sts) ∧
      ∀ code : Code, code.source = sts →
        let holds := Statement.holds (globalsOf sts)
        (dataSize (code.select holds localLines) options.dataCells =
            dataSize sts options.dataCells ∧
          assembleStatements (code.select holds localLines) options = .ok img) ∧
        ((∀ st ∈ code.dropped holds, st.op? ≠ some ".local") →
          assembleStatements (code.select holds fun _ => []) options = .ok img) := by
  unfold assemble at h
  cases hparse : parseSource source with
  | error failure =>
    rw [hparse] at h
    cases h
  | ok sts =>
    rw [hparse] at h
    refine ⟨sts, rfl, exists_code h, ?_⟩
    rintro code rfl
    have hkept := assembleStatements_kept h
    refine ⟨hkept, fun hnone => ?_⟩
    rw [← code.select_localLines hnone]
    exact hkept.2

/-- A source with a branch of one line that is not selected. -/
def branchSource (line : String) : RawText := .ofString
  (".global x, 5\n.routine f\n.if 0\n" ++ line ++
    "\n.elseif 1\nJREL :z\nz: .else\nNOP\n.endif\nLOAD.U.P &x\nRET\n.end\n")

/-- Its statements, by those of the branch. -/
def branchCode (body : Code) : Code :=
  .line { pos := ⟨1, 1⟩, op? := some ".global", args := [⟨⟨1, 9⟩, "x"⟩, ⟨⟨1, 12⟩, "5"⟩] }
    (by decide) <|
  .line { pos := ⟨2, 1⟩, op? := some ".routine", args := [⟨⟨2, 10⟩, "f"⟩] } (by decide) <|
  .group { pos := ⟨3, 1⟩, op? := some ".if", args := [⟨⟨3, 5⟩, "0"⟩] } rfl body
    (.next { pos := ⟨5, 1⟩, op? := some ".elseif", args := [⟨⟨5, 9⟩, "1"⟩] } rfl
      (.line { pos := ⟨6, 1⟩, op? := some "JREL", args := [⟨⟨6, 6⟩, ":z"⟩] } (by decide) .done)
      (.otherwise { pos := ⟨7, 1⟩, label? := some "z", op? := some ".else" } rfl
        (.line { pos := ⟨8, 1⟩, op? := some "NOP" } (by decide) .done)
        { pos := ⟨9, 1⟩, op? := some ".endif" } rfl)) <|
  .line { pos := ⟨10, 1⟩, op? := some "LOAD.U.P", args := [⟨⟨10, 10⟩, "&x"⟩] } (by decide) <|
  .line { pos := ⟨11, 1⟩, op? := some "RET" } (by decide) <|
  .line { pos := ⟨12, 1⟩, op? := some ".end" } (by decide) .done

/-- A branch with an instruction. -/
def instructionBody : Code := .line { pos := ⟨4, 1⟩, op? := some "INC.P" } (by decide) .done

/-- A branch that declares a local. -/
def localBody : Code :=
  .line { pos := ⟨4, 1⟩, op? := some ".local", args := [⟨⟨4, 8⟩, "x"⟩, ⟨⟨4, 11⟩, "1"⟩] }
    (by decide) .done

/-- The image of the source, by the instruction that loads the variable. -/
def branchImage (load place : Cell) : Image where
  version := 1
  base := 0
  cells? := some #[5, 129, 1, load, place, 17]
  globals := [⟨"x", 0⟩]
  routines := [⟨"f", 1, 5⟩]

/-- Blocks that are large enough for the routine of the source. -/
def smallBlocks : AssemblyOptions := { blockCells := 8 }

/-- An instruction that is not selected can be left out. A local that is not selected hides the
global of its name, and cannot. -/
theorem assemble_select_sample :
    assemble (branchSource "INC.P") smallBlocks = .ok (branchImage 48 0) ∧
      assembleStatements ((branchCode instructionBody).select
        (Statement.holds (globalsOf (branchCode instructionBody).source)) fun _ => [])
          smallBlocks = .ok (branchImage 48 0) ∧
      assemble (branchSource ".local x, 1") smallBlocks = .ok (branchImage 64 1) ∧
      assembleStatements ((branchCode localBody).select
        (Statement.holds (globalsOf (branchCode localBody).source)) localLines)
          smallBlocks = .ok (branchImage 64 1) ∧
      assembleStatements ((branchCode localBody).select
        (Statement.holds (globalsOf (branchCode localBody).source)) fun _ => [])
          smallBlocks = .ok (branchImage 48 0) := by
  have hclearCode : parseSource (branchSource "INC.P") =
      .ok (branchCode instructionBody).source := ok_of_toOption (by decide +kernel)
  have hhidingCode : parseSource (branchSource ".local x, 1") =
      .ok (branchCode localBody).source := ok_of_toOption (by decide +kernel)
  have hclear : assemble (branchSource "INC.P") smallBlocks = .ok (branchImage 48 0) := by
    unfold assemble
    rw [hclearCode]
    exact ok_of_toOption (by decide +kernel)
  have hhiding : assemble (branchSource ".local x, 1") smallBlocks = .ok (branchImage 64 1) := by
    unfold assemble
    rw [hhidingCode]
    exact ok_of_toOption (by decide +kernel)
  obtain ⟨_, hparse, -, hclearImages⟩ := assemble_select hclear
  obtain rfl := Except.ok.inj (hclearCode.symm.trans hparse)
  obtain ⟨_, hparse, -, hhidingImages⟩ := assemble_select hhiding
  obtain rfl := Except.ok.inj (hhidingCode.symm.trans hparse)
  exact ⟨hclear, (hclearImages _ rfl).2 (by decide +kernel), hhiding, (hhidingImages _ rfl).1.2,
    ok_of_toOption (by decide +kernel)⟩

end CellMachine
