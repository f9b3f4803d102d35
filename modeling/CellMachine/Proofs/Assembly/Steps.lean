import CellMachine.Proofs.Assembly.Selection
import CellMachine.Proofs.Program.Build

/-!
# What a statement does

The parts of an assembly that statements change: the block of the current routine, and the program
around it. The lemmas here say once for each directive what it has done if it ended well.

* `Assembler.Sound` — the block of the current routine is at work, and locals have no contents.
* `Assembler.global_ok`, `Assembler.beginRoutine_ok`, `Assembler.declareLocal_ok`,
  `Assembler.endRoutine_iff` — what directives do to the program.
* `Assembler.Turn`, `Assembler.turn_ok` — what directives of conditionals do to the levels.
-/

namespace CellMachine

open CellMachine.Action

namespace Assembler

variable {a a₂ : Assembler} {st : Statement} {op : String}

/-! ### Parts of directives -/

/-- What ends well on the program. -/
theorem onProgram_ok {α : Type} {x : Action Program α} {v : α} (h : onProgram x a = .ok v a₂) :
    ∃ p, x a.program = .ok v p ∧ a₂ = { a with program := p } := by
  unfold onProgram at h
  cases hx : x a.program with
  | ok u p =>
    rw [hx] at h
    cases h
    exact ⟨p, rfl, rfl⟩
  | error failure p =>
    rw [hx] at h
    cases h

/-- What ends well on the program does so in an assembly. -/
theorem onProgram_of_ok {α : Type} {x : Action Program α} {v : α} {p : Program}
    (h : x a.program = .ok v p) : onProgram x a = .ok v { a with program := p } := by
  unfold onProgram
  rw [h]

/-- What ends well on the block of the current routine. -/
theorem onBlock_ok {α : Type} {outside : Failure} {x : Action Worksite α} {v : α}
    (h : onBlock outside x a = .ok v a₂) :
    ∃ b w, a.block? = some b ∧ x ⟨b, a.program⟩ = .ok v w ∧
      a₂ = { a with block? := some w.block, program := w.program } := by
  unfold onBlock at h
  cases hb : a.block? with
  | none =>
    rw [hb] at h
    cases h
  | some b =>
    rw [hb] at h
    dsimp only at h
    cases hx : x ⟨b, a.program⟩ with
    | ok u w =>
      rw [hx] at h
      cases h
      exact ⟨b, w, rfl, hx, rfl⟩
    | error failure w =>
      rw [hx] at h
      cases h

/-- What ends well on the block of the current routine does so in an assembly. -/
theorem onBlock_of_ok {α : Type} {outside : Failure} {x : Action Worksite α} {v : α} {b : Block}
    {w : Worksite} (hb : a.block? = some b) (h : x ⟨b, a.program⟩ = .ok v w) :
    onBlock outside x a = .ok v { a with block? := some w.block, program := w.program } := by
  unfold onBlock
  rw [hb]
  dsimp only
  rw [h]

/-- A directive that needs a routine stands in one, and has its number of arguments. -/
theorem needRoutine_iff {count : Nat} : needRoutine op st count a = .ok () a₂ ↔
    a₂ = a ∧ a.block?.isSome ∧ st.checkCount count count = .ok () := by
  constructor
  · intro h
    obtain ⟨_, _, hget, hrest⟩ := ok_of_bind h
    cases hget
    obtain ⟨hinside, hcount₀⟩ := ok_of_refuse hrest
    obtain ⟨hcount, hsame⟩ := ok_of_ofExcept hcount₀
    exact ⟨hsame, Option.isSome_iff_ne_none.mpr (by simpa using hinside), hcount⟩
  · rintro ⟨rfl, hinside, hcount⟩
    refine (bind_of_ok rfl).trans ?_
    rw [if_neg (by simpa using Option.isSome_iff_ne_none.mp hinside), hcount]
    rfl

/-! ### Directives -/

/-- A global is declared outside a routine. -/
theorem global_ok (h : global st a = .ok () a₂) :
    a.block? = none ∧ ∃ name init addr p, firstName st = .ok name ∧ secondNumber st = .ok init ∧
      Program.declareGlobal name init a.program = .ok addr p ∧ a₂ = { a with program := p } := by
  obtain ⟨_, _, hget, h₁⟩ := ok_of_bind h
  cases hget
  obtain ⟨houtside, h₂⟩ := ok_of_refuse h₁
  obtain ⟨_, _, hcount₀, h₃⟩ := ok_of_bind h₂
  obtain ⟨-, rfl⟩ := ok_of_ofExcept hcount₀
  obtain ⟨name, _, hname₀, h₄⟩ := ok_of_bind h₃
  obtain ⟨hname, rfl⟩ := ok_of_ofExcept hname₀
  obtain ⟨init, _, hinit₀, h₅⟩ := ok_of_bind h₄
  obtain ⟨hinit, rfl⟩ := ok_of_ofExcept hinit₀
  obtain ⟨addr, _, hdeclare₀, h₆⟩ := ok_of_bind h₅
  obtain ⟨p, hdeclare, rfl⟩ := onProgram_ok hdeclare₀
  cases h₆
  exact ⟨by simpa using houtside, name, init, addr, p, hname, hinit, hdeclare, rfl⟩

/-- A routine starts outside a routine, with a new block. -/
theorem beginRoutine_ok (h : beginRoutine st a = .ok () a₂) :
    a.block? = none ∧ ∃ name reserve p b p', Program.beginRoutine name a.program = .ok () p ∧
      Program.openBlock a.blockCells p = .ok b p' ∧
      a₂ = { a with program := p', block? := some b, routine := name, reserve } := by
  obtain ⟨_, _, hget, h₁⟩ := ok_of_bind h
  cases hget
  obtain ⟨houtside, h₂⟩ := ok_of_refuse h₁
  obtain ⟨_, _, hcount₀, h₃⟩ := ok_of_bind h₂
  obtain ⟨-, rfl⟩ := ok_of_ofExcept hcount₀
  obtain ⟨name, _, hname₀, h₄⟩ := ok_of_bind h₃
  obtain ⟨-, rfl⟩ := ok_of_ofExcept hname₀
  obtain ⟨reserve, _, hreserve₀, h₅⟩ := ok_of_bind h₄
  obtain ⟨-, rfl⟩ := ok_of_ofExcept hreserve₀
  obtain ⟨_, _, hbegin₀, h₆⟩ := ok_of_bind h₅
  obtain ⟨p, hbegin, rfl⟩ := onProgram_ok hbegin₀
  obtain ⟨b, _, hopen₀, h₇⟩ := ok_of_bind h₆
  obtain ⟨p', hopen, rfl⟩ := onProgram_ok hopen₀
  cases h₇
  exact ⟨by simpa using houtside, name, _, p, b, p', hbegin, hopen, rfl⟩

/-- A local is declared in a routine. -/
theorem declareLocal_ok (h : declareLocal st a = .ok () a₂) :
    a.block?.isSome ∧ ∃ name offset p, Program.declareLocal name offset a.program = .ok () p ∧
      a₂ = { a with program := p } := by
  obtain ⟨_, _, hneed, h₁⟩ := ok_of_bind h
  obtain ⟨rfl, hinside, -⟩ := needRoutine_iff.mp hneed
  obtain ⟨name, _, hname₀, h₂⟩ := ok_of_bind h₁
  obtain ⟨-, rfl⟩ := ok_of_ofExcept hname₀
  obtain ⟨offset, _, hoffset₀, h₃⟩ := ok_of_bind h₂
  obtain ⟨-, rfl⟩ := ok_of_ofExcept hoffset₀
  obtain ⟨p, hdeclare, rfl⟩ := onProgram_ok h₃
  exact ⟨hinside, name, offset, p, hdeclare, rfl⟩

/-- A routine ends with its block. -/
theorem endRoutine_iff : endRoutine st a = .ok () a₂ ↔
    st.checkCount 0 0 = .ok () ∧ ∃ b routine w entry p, a.block? = some b ∧
      Worksite.close ⟨b, a.program⟩ = .ok routine w ∧
      Program.endRoutine a.reserve w.program = .ok entry p ∧
      a₂ = { a with block? := none, program := p } := by
  constructor
  · intro h
    obtain ⟨_, _, hneed, h₁⟩ := ok_of_bind h
    obtain ⟨rfl, -, hcount⟩ := needRoutine_iff.mp hneed
    obtain ⟨_, _, hget, h₂⟩ := ok_of_bind h₁
    cases hget
    obtain ⟨routine, _, hreport, h₃⟩ := ok_of_bind h₂
    split at hreport
    · next hblock =>
      cases hreport
      obtain ⟨b, w, hb, hclose, rfl⟩ := onBlock_ok hblock
      obtain ⟨_, _, hmodify, h₄⟩ := ok_of_bind h₃
      cases hmodify
      obtain ⟨entry, _, hend₀, h₅⟩ := ok_of_bind h₄
      obtain ⟨p, hend, rfl⟩ := onProgram_ok hend₀
      cases h₅
      exact ⟨hcount, b, routine, w, entry, p, hb, hclose, hend, rfl⟩
    · cases hreport
  · rintro ⟨hcount, b, routine, w, entry, p, hb, hclose, hend, rfl⟩
    have hneed : needRoutine ".end" st 0 a = .ok () a :=
      needRoutine_iff.mpr ⟨rfl, by simp [hb], hcount⟩
    refine (bind_of_ok hneed).trans ((bind_of_ok rfl).trans ((bind_of_ok
      (?_ : _ = EStateM.Result.ok routine
        { a with block? := some w.block, program := w.program })).trans ?_))
    · simp only [onBlock_of_ok hb hclose]
    · refine (bind_of_ok rfl).trans ?_
      exact (bind_of_ok (onProgram_of_ok hend)).trans rfl

/-! ### Conditions -/

/-- The globals of an assembly, with their initial contents. -/
def globals (a : Assembler) : List (String × Cell) :=
  a.program.scope.globals.map fun g => (g.name, g.init)

/-- The block of the current routine is at work, and no local has contents that are known. -/
structure Sound (a : Assembler) : Prop where
  block : ∀ b, a.block? = some b → ∃ calls r, b.Working calls r
  locals : ∀ frame ∈ a.program.scope.frames, ∀ s ∈ frame, s.contents? = none

/-- The first global of a name is found among names with contents. -/
theorem lookup_globals (globals : List DeclaredGlobal) (name : String) :
    (globals.map fun g => (g.name, g.init)).lookup name =
      (globals.find? fun g => g.name == name).map DeclaredGlobal.init := by
  induction globals with
  | nil => rfl
  | cons g rest ih =>
    rw [List.map_cons, List.lookup_cons, List.find?_cons, ih, BEq.comm]
    cases g.name == name with
    | true => rfl
    | false => rfl

/-- A variable with contents is a global. -/
theorem Sound.lookup_of_symbol? (hsound : a.Sound) {name : String} {symbol : Symbol} {v : Cell}
    (hsymbol : a.program.scope.symbol? name = some symbol) (hv : symbol.contents? = some v) :
    a.globals.lookup name = some v := by
  unfold Scope.symbol? at hsymbol
  cases hlocal : Scope.local? a.program.scope.frames name with
  | some s =>
    rw [hlocal] at hsymbol
    obtain rfl : s = symbol := Option.some.inj hsymbol
    obtain ⟨frame, hframe, hfound⟩ := List.exists_of_findSome?_eq_some hlocal
    rw [hsound.locals frame hframe s (List.mem_of_find?_eq_some hfound)] at hv
    cases hv
  | none =>
    rw [hlocal] at hsymbol
    obtain ⟨g, hg, rfl⟩ := Option.map_eq_some_iff.mp hsymbol
    obtain rfl : g.init = v := Option.some.inj hv
    unfold globals
    rw [lookup_globals, hg]
    rfl

/-- What is found among some globals is found among more of them. -/
theorem lookup_of_more {globals more : List (String × Cell)} (h : globals <+: more)
    {name : String} {v : Cell} (hv : globals.lookup name = some v) : more.lookup name = some v := by
  obtain ⟨rest, rfl⟩ := h
  induction globals with
  | nil => cases hv
  | cons g globals ih =>
    rw [List.cons_append, List.lookup_cons]
    rw [List.lookup_cons] at hv
    cases hg : name == g.1 with
    | true =>
      rw [hg] at hv
      exact hv
    | false =>
      rw [hg] at hv
      exact ih hv

/-- **A condition is true among the globals that are declared by then, and among more of them.** -/
theorem Sound.truth?_of_condition (hsound : a.Sound) {more : List (String × Cell)}
    (hmore : a.globals <+: more) {arg : Arg} {c : Bool} (h : a.condition arg = .ok c) :
    arg.truth? more = some c := by
  have hread : (parseOperand arg.tested.2 >>= _) = Except.ok c := h
  unfold Arg.truth? operandValue?
  cases hparse : parseOperand arg.tested.2 with
  | error failure =>
    rw [hparse] at hread
    cases hread
  | ok operand =>
    rw [hparse] at hread
    dsimp only [bind, Except.bind] at hread
    split at hread
    · cases hread
      rfl
    · next name =>
      split at hread
      · cases hread
      · next symbol hsymbol =>
        split at hread
        · cases hread
        · next v hv =>
          cases hread
          dsimp only
          rw [lookup_of_more hmore (hsound.lookup_of_symbol? hsymbol hv)]
          rfl
    · cases hread

/-- The only condition of a directive in a routine. -/
theorem onlyCondition_ok {c : Bool} (h : onlyCondition op st a = .ok c a₂) :
    a₂ = a ∧ ∃ arg, st.args = [arg] ∧ a.condition arg = .ok c := by
  obtain ⟨_, _, hneed, h₁⟩ := ok_of_bind h
  obtain ⟨rfl, -, -⟩ := needRoutine_iff.mp hneed
  obtain ⟨_, _, hget, h₂⟩ := ok_of_bind h₁
  cases hget
  cases hargs : st.args with
  | nil =>
    rw [hargs] at h₂
    cases h₂
  | cons arg rest =>
    cases rest with
    | nil =>
      rw [hargs] at h₂
      obtain ⟨hcondition, hsame⟩ := ok_of_ofExcept h₂
      exact ⟨hsame, arg, rfl, hcondition⟩
    | cons other rest =>
      rw [hargs] at h₂
      cases h₂

/-- The condition of a directive in a routine is true or not, whatever globals come later. -/
theorem Sound.holds_of_onlyCondition (hsound : a.Sound) {more : List (String × Cell)}
    (hmore : a.globals <+: more) {c : Bool} (h : onlyCondition op st a = .ok c a₂) :
    a₂ = a ∧ st.holds more = c := by
  obtain ⟨hsame, arg, hargs, hcondition⟩ := onlyCondition_ok h
  refine ⟨hsame, ?_⟩
  unfold Statement.holds
  rw [hargs]
  dsimp only
  rw [hsound.truth?_of_condition hmore hcondition]
  cases c with
  | true => rfl
  | false => rfl

/-! ### Levels of conditionals -/

/-- The statement after these levels is selected. -/
def activeAt : List Level → Bool
  | [] => true
  | level :: _ => level.active

/-- What a directive of conditionals does to the levels, if its condition is `c`. -/
inductive Turn (c : Bool) (op : String) : List Level → List Level → Prop
  | opens (hop : op = ".if") (levels : List Level) : Turn c op levels
      ({ active := activeAt levels && c, taken := c, outer := activeAt levels } :: levels)
  | next (hop : op = ".elseif") (level : Level) (levels : List Level)
      (hfirst : level.sawElse = false) : Turn c op (level :: levels) ({ level with
        active := level.outer && !level.taken && c, taken := level.taken || c } :: levels)
  | otherwise (hop : op = ".else") (level : Level) (levels : List Level)
      (hfirst : level.sawElse = false) : Turn c op (level :: levels) ({ level with
        active := level.outer && !level.taken, taken := true, sawElse := true } :: levels)
  | closes (hop : op = ".endif") (level : Level) (levels : List Level) :
      Turn c op (level :: levels) levels

/-- What ends well on the block alone. -/
theorem onBlockAlone_ok {outside : Failure} {x : Action Block Unit}
    (h : onBlock outside (Worksite.onBlock x) a = .ok () a₂) :
    ∃ b b', a.block? = some b ∧ x b = .ok () b' ∧ a₂ = { a with block? := some b' } := by
  obtain ⟨b, w, hb, hx, rfl⟩ := onBlock_ok h
  unfold Worksite.onBlock at hx
  split at hx
  · next b' hx' =>
    cases hx
    exact ⟨b, b', hb, hx', rfl⟩
  · cases hx

/-- **A directive of conditionals changes the levels of the block alone**, by its condition. -/
theorem Sound.turn_of_directive (hsound : a.Sound) {more : List (String × Cell)}
    (hmore : a.globals <+: more) (hop : op ∈ [".if", ".elseif", ".else", ".endif"])
    (h : directive op st a = .ok () a₂) :
    ∃ b levels, a.block? = some b ∧ a₂ = { a with block? := some { b with levels } } ∧
      Turn (st.holds more) op b.levels levels := by
  simp only [List.mem_cons, List.not_mem_nil, or_false] at hop
  rcases hop with rfl | rfl | rfl | rfl
  · obtain ⟨c, _, hcond, h₁⟩ := ok_of_bind h
    obtain ⟨rfl, rfl⟩ := hsound.holds_of_onlyCondition hmore hcond
    obtain ⟨b, b', hb, hopens, rfl⟩ := onBlockAlone_ok h₁
    cases hopens
    exact ⟨b, _, hb, rfl, .opens rfl b.levels⟩
  · obtain ⟨c, _, hcond, h₁⟩ := ok_of_bind h
    obtain ⟨rfl, rfl⟩ := hsound.holds_of_onlyCondition hmore hcond
    obtain ⟨b, b', hb, hnext, rfl⟩ := onBlockAlone_ok h₁
    unfold Block.elseIf at hnext
    split at hnext
    · cases hnext
    · next level levels hlevels =>
      split at hnext
      · cases hnext
      · next hfirst =>
        cases hnext
        refine ⟨b, _, hb, rfl, ?_⟩
        rw [hlevels]
        exact .next rfl level levels (by simpa using hfirst)
  · obtain ⟨_, _, hneed, h₁⟩ := ok_of_bind h
    obtain ⟨rfl, -, -⟩ := needRoutine_iff.mp hneed
    obtain ⟨b, b', hb, hlast, rfl⟩ := onBlockAlone_ok h₁
    unfold Block.elseLast at hlast
    split at hlast
    · cases hlast
    · next level levels hlevels =>
      split at hlast
      · cases hlast
      · next hfirst =>
        cases hlast
        refine ⟨b, _, hb, rfl, ?_⟩
        rw [hlevels]
        exact .otherwise rfl level levels (by simpa using hfirst)
  · obtain ⟨_, _, hneed, h₁⟩ := ok_of_bind h
    obtain ⟨rfl, -, -⟩ := needRoutine_iff.mp hneed
    obtain ⟨b, b', hb, hclose, rfl⟩ := onBlockAlone_ok h₁
    unfold Block.endIf at hclose
    split at hclose
    · cases hclose
    · next level levels hlevels =>
      cases hclose
      refine ⟨b, _, hb, rfl, ?_⟩
      rw [hlevels]
      exact .closes rfl level levels

namespace Turn

variable {c : Bool} {before after : List Level}

/-- A group is opened by `.if`. -/
theorem of_if (h : Turn c ".if" before after) : after =
    { active := activeAt before && c, taken := c, outer := activeAt before } :: before := by
  cases h with
  | opens => rfl
  | next hop | otherwise hop | closes hop => exact absurd hop (by decide)

/-- One more branch with a condition. -/
theorem of_elseif (h : Turn c ".elseif" before after) : ∃ level levels,
    before = level :: levels ∧ level.sawElse = false ∧ after = { level with
      active := level.outer && !level.taken && c, taken := level.taken || c } :: levels := by
  cases h with
  | next _ level levels hfirst => exact ⟨level, levels, rfl, hfirst, rfl⟩
  | opens hop | otherwise hop | closes hop => exact absurd hop (by decide)

/-- The last branch. -/
theorem of_else (h : Turn c ".else" before after) : ∃ level levels,
    before = level :: levels ∧ level.sawElse = false ∧ after = { level with
      active := level.outer && !level.taken, taken := true, sawElse := true } :: levels := by
  cases h with
  | otherwise _ level levels hfirst => exact ⟨level, levels, rfl, hfirst, rfl⟩
  | opens hop | next hop | closes hop => exact absurd hop (by decide)

/-- A group is closed by `.endif`. -/
theorem of_endif (h : Turn c ".endif" before after) : ∃ level, before = level :: after := by
  cases h with
  | closes _ level levels => exact ⟨level, rfl⟩
  | opens hop | next hop | otherwise hop => exact absurd hop (by decide)

end Turn

end Assembler

end CellMachine
