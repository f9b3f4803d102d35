import Mathlib.Logic.Relation
import CellMachine.Proofs.Program.Detached

/-!
# Building a program

A program is built by calls that come in any order and may fail: globals are declared, routines are
begun and ended, cells are appended, and blocks are opened, worked on, closed and given up. A build
is a program with all blocks that were ever opened in it. Beside them it keeps a record of what was
done, which no call looks at.

* `Piece`, `Draft` — what a routine is made of, and the cells that this comes to.
* `BuildCall`, `Build.after` — the calls, and a build after one of them.
* `Outline.Step` — the four things that can happen to the code and its routines.
* `Program.declareGlobal_cases`, `Program.beginRoutine_cases`, `Program.endRoutine_cases` — what
  calls to a program can do.
* `Build.Sound` — the open block belongs to the current routine, and globals have their cells.
* `Build.Sound.after`, `Build.Sound.afterAll` — **a call leaves a build sound, and does one of the
  four things**, whether it succeeds or fails, and so does every run of calls.
-/

namespace CellMachine

open CellMachine.Action

/-! ### What routines are made of -/

/-- A part of a routine. -/
inductive Piece
  /-- Cells that were appended as they are. -/
  | raw (cells : Array Cell)
  /-- The stream of a block that was closed, by the calls that were carried out. -/
  | stream (calls : List Call)

/-- The cells of a piece that stands `origin` cells into its routine. -/
def Piece.cells? (origin : Int) : Piece → Option (List Cell)
  | .raw cells => some cells.toList
  | .stream calls => assembleCalls? .static origin calls

/-- The cells of pieces, the first of which stands `origin` cells into the routine. -/
def assemblePieces? : (origin : Nat) → List Piece → Option (List Cell)
  | _, [] => some []
  | origin, piece :: rest =>
    (piece.cells? origin).bind fun cells =>
      (assemblePieces? (origin + cells.length) rest).map (cells ++ ·)

/-- A routine that was ended. -/
structure Draft where
  name : String
  pieces : List Piece
  /-- The number of cells that the routine was to have at least. -/
  reserve : Int

/-- The cells of a routine: its pieces, and `NOP` up to what was reserved. -/
def Draft.cells? (d : Draft) : Option (List Cell) :=
  (assemblePieces? 0 d.pieces).map fun body =>
    body ++ List.replicate (d.reserve - body.length).toNat Op.nop.cell

/-- One more piece stands behind the cells of those before it. -/
theorem assemblePieces?_concat {pieces : List Piece} {piece : Piece} {more : List Cell} :
    ∀ {origin : Nat} {cells : List Cell}, assemblePieces? origin pieces = some cells →
      piece.cells? ((origin + cells.length : Nat) : Int) = some more →
      assemblePieces? origin (pieces ++ [piece]) = some (cells ++ more) := by
  induction pieces with
  | nil =>
    intro origin cells h hmore
    cases h
    simp only [List.nil_append, assemblePieces?]
    rw [List.length_nil, Nat.add_zero] at hmore
    rw [hmore]
    simp
  | cons first rest ih =>
    intro origin cells h hmore
    obtain ⟨head, hhead, h⟩ := Option.bind_eq_some_iff.mp h
    obtain ⟨tail, htail, rfl⟩ := Option.map_eq_some_iff.mp h
    rw [List.length_append, ← Nat.add_assoc] at hmore
    simp only [List.cons_append, assemblePieces?, hhead, Option.bind_some, ih htail hmore,
      Option.map_some, List.append_assoc]

/-! ### Builds -/

/-- A block that was opened, with the calls that its emission has carried out. -/
structure OpenedBlock where
  block : Block
  calls : List Call := []

/-- A program with the blocks that were ever opened in it, and a record of what was done. -/
structure Build where
  program : Program
  blocks : List OpenedBlock := []
  /-- The globals that were declared, with their contents. -/
  globals : List (String × Cell) := []
  /-- What was put at the end of the code since a routine was begun. -/
  pieces : List Piece := []
  /-- The routines that were ended. -/
  drafts : List Draft := []

/-- A call to a program, or to a block that was opened in it. -/
inductive BuildCall
  | declareGlobal (name : String) (init : Cell)
  | declareLocal (name : String) (offset : Cell)
  | beginRoutine (name : String)
  | append (cells : Array Cell)
  | endRoutine (reserve : Int)
  | openBlock (capacity : Int)
  /-- A call to the block with a number. Frames of variables are left to the program. -/
  | work (id : Nat) (call : BlockCall) (keeps : call.KeepsScope)
  | close (id : Nat)
  | discard (id : Nat)

namespace Build

/-- The build with a block, and its program, as they are on a worksite. -/
def withSite (s : Build) (id : Nat) (calls : List Call) (w : Worksite) : Build :=
  { s with program := w.program, blocks := s.blocks.set id { block := w.block, calls } }

/-- A build after a call, whether it succeeds or fails. -/
def after (s : Build) : BuildCall → Build
  | .declareGlobal name init =>
    match Program.declareGlobal name init s.program with
    | .ok _ program => { s with program, globals := s.globals ++ [(name, init)] }
    | .error _ program => { s with program }
  | .declareLocal name offset =>
    { s with program := (Program.declareLocal name offset).after s.program }
  | .beginRoutine name =>
    match Program.beginRoutine name s.program with
    | .ok () program => { s with program, pieces := [] }
    | .error _ program => { s with program }
  | .append cells =>
    { s with program := s.program.append cells, pieces := s.pieces ++ [.raw cells] }
  | .endRoutine reserve =>
    match Program.endRoutine reserve s.program with
    | .ok entry program =>
      let draft : Draft := { name := entry.name, pieces := s.pieces, reserve }
      { s with program, drafts := s.drafts ++ [draft] }
    | .error _ program => { s with program }
  | .openBlock capacity =>
    match Program.openBlock capacity s.program with
    | .ok block program => { s with program, blocks := s.blocks ++ [{ block }] }
    | .error _ program => { s with program }
  | .work id call _ =>
    match s.blocks[id]? with
    | none => s
    | some b =>
      match call.perform ⟨b.block, s.program⟩ with
      | .ok () w => s.withSite id (b.calls ++ (call.reaching? ⟨b.block, s.program⟩).toList) w
      | .error _ w => s.withSite id b.calls w
  | .close id =>
    match s.blocks[id]? with
    | none => s
    | some b =>
      match Worksite.close ⟨b.block, s.program⟩ with
      | .ok _ w => { s.withSite id b.calls w with pieces := s.pieces ++ [.stream b.calls] }
      | .error _ w => s.withSite id b.calls w
  | .discard id =>
    match s.blocks[id]? with
    | none => s
    | some b => s.withSite id b.calls (Worksite.discard.after ⟨b.block, s.program⟩)

/-- A build in which nothing has been done yet. -/
def start (p : Program) : Build := { program := p }

/-- A build after many calls. -/
def afterAll (s : Build) (calls : List BuildCall) : Build := calls.foldl after s

end Build

/-! ### The code and its routines -/

/-- The code of a program and the routines in it, with what they are made of. -/
structure Outline where
  dataBase : Addr
  dataCells : Nat
  code : List Cell
  routines : List RoutineEntry
  current? : Option OpenRoutine
  pieces : List Piece
  drafts : List Draft

namespace Outline

/-- The address of the first cell. -/
def codeBase (o : Outline) : Addr := o.dataBase + Int64.ofNat o.dataCells

/-- The address of the next cell. -/
def here (o : Outline) : Addr := o.codeBase + Int64.ofNat o.code.length

/-- What can happen to the code and its routines. -/
inductive Step (o : Outline) : Outline → Prop
  /-- Nothing happens to them. -/
  | aside : Step o o
  /-- A routine is begun, with a name of its own. -/
  | begin {name : String} : o.current? = none → (∀ r ∈ o.routines, r.name ≠ name) →
    Step o { o with current? := some { name, base := o.here }, pieces := [] }
  /-- A piece is put at the end of the code. -/
  | append {piece : Piece} {cells : List Cell} :
    (∀ r, o.current? = some r → piece.cells? (o.here - r.base).toInt = some cells) →
    Step o { o with code := o.code ++ cells, pieces := o.pieces ++ [piece] }
  /-- The routine is ended and padded. It is not longer than what was reserved, if anything was. -/
  | finish {r : OpenRoutine} {reserve length : Int} : o.current? = some r →
    length = (o.here - r.base).toInt → ¬(0 < reserve ∧ reserve < length) →
    Step o { o with
      code := o.code ++ List.replicate (reserve - length).toNat Op.nop.cell
      routines := o.routines ++ [⟨r.name, r.base, Int64.ofInt (max length reserve)⟩]
      current? := none
      drafts := o.drafts ++ [⟨r.name, o.pieces, reserve⟩] }

end Outline

/-- The globals of a program are those that were declared: each has the next data cell, and there
are no two with one name. -/
structure Program.Declares (p : Program) (globals : List (String × Cell)) : Prop where
  listed : p.scope.globals.map (fun g => (g.name, g.init)) = globals
  placed : ∀ (i : Nat) g, p.scope.globals[i]? = some g → g.addr = p.dataBase + Int64.ofNat i
  distinct : (p.scope.globals.map DeclaredGlobal.name).Nodup
  room : p.scope.globals.length ≤ p.dataCells

/-! ### What calls to a program can do -/

/-- An element of a list with one more at its end is one of the list, or the last one. -/
theorem getElem?_concat_cases {α : Type} {xs : List α} {x y : α} {i : Nat}
    (h : (xs ++ [x])[i]? = some y) : xs[i]? = some y ∨ i = xs.length ∧ y = x := by
  rw [List.getElem?_append] at h
  split at h
  · exact .inl h
  · next hge =>
    rw [List.getElem?_singleton] at h
    split at h
    · next hzero =>
      cases h
      exact .inr ⟨by omega, rfl⟩
    · cases h

namespace Program

variable {p p' : Program} {globals : List (String × Cell)}

/-- What does not concern the data leaves the globals as they were declared. -/
theorem Declares.of_same (h : p.Declares globals)
    (hbase : p'.dataBase = p.dataBase) (hcells : p'.dataCells = p.dataCells)
    (hglobals : p'.scope.globals = p.scope.globals) : p'.Declares globals where
  listed := hglobals ▸ h.listed
  placed := by
    rw [hglobals, hbase]
    exact h.placed
  distinct := hglobals ▸ h.distinct
  room := by
    rw [hglobals, hcells]
    exact h.room

/-- One more global is declared. -/
theorem Declares.concat (h : p.Declares globals) {name : String} {init : Cell}
    (hroom : p.scope.globals.length < p.dataCells)
    (hfresh : ∀ g ∈ p.scope.globals, g.name ≠ name) :
    Program.Declares { p with scope := { p.scope with
      globals := p.scope.globals ++
        [{ name, addr := p.dataBase + Int64.ofNat p.scope.globals.length, init }] } }
      (globals ++ [(name, init)]) where
  listed := by simp [h.listed]
  placed i g hg := by
    rcases getElem?_concat_cases hg with hold | ⟨rfl, rfl⟩
    · exact h.placed i g hold
    · rfl
  distinct := by
    rw [List.map_append, List.nodup_append]
    refine ⟨h.distinct, by simp, ?_⟩
    rintro old hold new hnew rfl
    obtain ⟨g, hg, hname⟩ := List.mem_map.mp hold
    exact hfresh g hg (hname.trans (by simpa using hnew))
  room := by
    rw [List.length_append]
    exact hroom

/-- Declaring a global is refused, or gives it the next data cell. -/
theorem declareGlobal_cases (name : String) (init : Cell) (p : Program) :
    (∃ failure, Program.declareGlobal name init p = .error failure p) ∨
      (p.scope.globals.length < p.dataCells ∧ (∀ g ∈ p.scope.globals, g.name ≠ name) ∧
        let addr := p.dataBase + Int64.ofNat p.scope.globals.length
        Program.declareGlobal name init p = .ok addr { p with scope :=
          { p.scope with globals := p.scope.globals ++ [{ name, addr, init }] } }) := by
  unfold Program.declareGlobal
  by_cases hfull : p.dataCells ≤ p.scope.globals.length
  · exact .inl ⟨_, if_pos hfull⟩
  · simp only [if_neg hfull]
    unfold Scope.declareGlobal
    by_cases htaken : p.scope.globals.any fun g => g.name == name
    · simp only [if_pos htaken]
      exact .inl ⟨_, rfl⟩
    · simp only [if_neg htaken]
      exact .inr ⟨by omega, by simpa using htaken, trivial⟩

/-- Declaring a local is refused, or changes the innermost frame. -/
theorem after_declareLocal (name : String) (offset : Cell) (p : Program) :
    ∃ frames, (p.scope.frames ≠ [] → frames ≠ []) ∧
      (Program.declareLocal name offset).after p = { p with scope := { p.scope with frames } } := by
  unfold Action.after Program.declareLocal Scope.declareLocal
  cases hframes : p.scope.frames with
  | nil => exact ⟨[], id, by simp only [← hframes]⟩
  | cons frame frames =>
    by_cases htaken : frame.any fun symbol => symbol.name == name
    · simp only [if_pos htaken]
      exact ⟨frame :: frames, id, by simp only [← hframes]⟩
    · simp only [if_neg htaken]
      exact ⟨_, fun _ => List.cons_ne_nil _ _, rfl⟩

/-- Beginning a routine is refused, or opens a frame for its locals. -/
theorem beginRoutine_cases (name : String) (p : Program) :
    (∃ failure, Program.beginRoutine name p = .error failure p) ∨
      p.current? = none ∧ (∀ r ∈ p.routines.toList, r.name ≠ name) ∧
        Program.beginRoutine name p = .ok () { p with
          current? := some { name, base := p.here }, scope := p.scope.push } := by
  unfold Program.beginRoutine
  cases hcurrent : p.current? with
  | some r => exact .inl ⟨_, rfl⟩
  | none =>
    by_cases htaken : p.routines.any fun r => r.name == name
    · simp only [if_pos htaken]
      exact .inl ⟨_, rfl⟩
    · simp only [if_neg htaken]
      refine .inr ⟨trivial, fun r hr hname => htaken ?_, trivial⟩
      rw [← Array.any_toList, List.any_eq_true]
      exact ⟨r, hr, by simpa using hname⟩

/-- Ending a routine is refused, or pads it and closes its frame. -/
theorem endRoutine_cases (reserve : Int) {p : Program}
    (hframes : ∀ r, p.current? = some r → p.scope.frames ≠ []) :
    (∃ failure, Program.endRoutine reserve p = .error failure p) ∨
      ∃ r length frames, p.current? = some r ∧ p.openBlock? = none ∧
        length = (p.here - r.base).toInt ∧ ¬(0 < reserve ∧ reserve < length) ∧
        Program.endRoutine reserve p = .ok ⟨r.name, r.base, Int64.ofInt (max length reserve)⟩
          { p with
            code := p.code ++ Array.replicate (reserve - length).toNat Op.nop.cell
            routines := p.routines.push ⟨r.name, r.base, Int64.ofInt (max length reserve)⟩
            current? := none
            scope := { p.scope with frames } } := by
  unfold Program.endRoutine
  cases hcurrent : p.current? with
  | none => exact .inl ⟨_, rfl⟩
  | some r =>
    by_cases hopen : p.openBlock?.isSome
    · simp only [if_pos hopen]
      exact .inl ⟨_, rfl⟩
    · simp only [if_neg hopen]
      by_cases hlong : 0 < reserve ∧ reserve < (p.here - r.base).toInt
      · simp only [if_pos hlong]
        exact .inl ⟨_, rfl⟩
      · simp only [if_neg hlong]
        obtain ⟨frame, frames, hcons⟩ := List.exists_cons_of_ne_nil (hframes r hcurrent)
        refine .inr ⟨r, _, frames, rfl, Option.not_isSome_iff_eq_none.mp hopen, rfl, hlong, ?_⟩
        simp only [Scope.pop, Program.append, hcons]

/-- A block that cannot be opened leaves the program as it was. -/
theorem openBlock_error {capacity : Int} {p p' : Program} {failure : Failure}
    (h : Program.openBlock capacity p = .error failure p') : p' = p := by
  unfold Program.openBlock at h
  split at h
  · cases h
    rfl
  · split at h
    · cases h
      rfl
    · split at h
      · cases h
        rfl
      · cases h

end Program

namespace Build

/-- The code of a build and its routines. -/
def outline (s : Build) : Outline where
  dataBase := s.program.dataBase
  dataCells := s.program.dataCells
  code := s.program.code.toList
  routines := s.program.routines.toList
  current? := s.program.current?
  pieces := s.pieces
  drafts := s.drafts

/-- What a build keeps to: blocks have their numbers, an open block is the open one of the program
and belongs to the current routine, the routine has a frame, and globals have their cells. -/
structure Sound (s : Build) : Prop where
  numbered : ∀ (id : Nat) b, s.blocks[id]? = some b → b.block.id = id
  counted : s.program.blocks = s.blocks.length
  opened : ∀ (id : Nat) b, s.blocks[id]? = some b → b.block.context.status = .open →
    s.program.openBlock? = some id ∧ ∃ r, s.program.current? = some r ∧ b.block.Working b.calls r
  framed : ∀ r, s.program.current? = some r → s.program.scope.frames ≠ []
  declared : s.program.Declares s.globals

variable {s s' : Build}

/-- The place behind the code. -/
@[simp] theorem here_outline (s : Build) : s.outline.here = s.program.here := by
  show s.program.codeBase + Int64.ofNat s.program.code.toList.length = s.program.here
  rw [Array.length_toList]
  rfl

/-! ### Calls to the program -/

/-- A build with another program whose blocks, routine and frames are the same. -/
theorem Sound.of_program (h : s.Sound) {p : Program} {globals : List (String × Cell)}
    {pieces : List Piece} (hblocks : p.blocks = s.program.blocks)
    (hopen : p.openBlock? = s.program.openBlock?) (hcurrent : p.current? = s.program.current?)
    (hframes : s.program.scope.frames ≠ [] → p.scope.frames ≠ [])
    (hdeclared : p.Declares globals) : Sound { s with program := p, globals, pieces } where
  numbered := h.numbered
  counted := hblocks.trans h.counted
  opened id b hb hstatus := by
    obtain ⟨hsite, r, hr, hworking⟩ := h.opened id b hb hstatus
    exact ⟨hopen.trans hsite, r, hcurrent.trans hr, hworking⟩
  framed r hr := hframes (h.framed r (hcurrent.symm.trans hr))
  declared := hdeclared

/-- Declaring a global leaves a build sound and the code alone. -/
theorem Sound.declareGlobal (h : s.Sound) (name : String) (init : Cell) :
    (s.after (.declareGlobal name init)).Sound ∧
      s.outline.Step (s.after (.declareGlobal name init)).outline := by
  rcases Program.declareGlobal_cases name init s.program with
    ⟨failure, herror⟩ | ⟨hroom, hfresh, hok⟩
  · simp only [Build.after, herror]
    exact ⟨h, .aside⟩
  · simp only [Build.after, hok]
    refine ⟨h.of_program rfl rfl rfl id ?_, .aside⟩
    exact h.declared.concat hroom hfresh

/-- Declaring a local leaves a build sound and the code alone. -/
theorem Sound.declareLocal (h : s.Sound) (name : String) (offset : Cell) :
    (s.after (.declareLocal name offset)).Sound ∧
      s.outline.Step (s.after (.declareLocal name offset)).outline := by
  obtain ⟨frames, hframes, hafter⟩ := Program.after_declareLocal name offset s.program
  simp only [Build.after, hafter]
  exact ⟨h.of_program rfl rfl rfl hframes (h.declared.of_same rfl rfl rfl), .aside⟩

/-- Appending cells leaves a build sound and puts them at the end of the code. -/
theorem Sound.append (h : s.Sound) (cells : Array Cell) :
    (s.after (.append cells)).Sound ∧ s.outline.Step (s.after (.append cells)).outline := by
  refine ⟨h.of_program rfl rfl rfl id (h.declared.of_same rfl rfl rfl), ?_⟩
  have hcode : (s.program.append cells).code.toList = s.program.code.toList ++ cells.toList :=
    Array.toList_append
  show s.outline.Step { s.outline with
    code := (s.program.append cells).code.toList, pieces := s.pieces ++ [.raw cells] }
  rw [hcode]
  exact .append fun r hr => rfl

/-- Beginning a routine leaves a build sound. No block is open then. -/
theorem Sound.beginRoutine (h : s.Sound) (name : String) :
    (s.after (.beginRoutine name)).Sound ∧
      s.outline.Step (s.after (.beginRoutine name)).outline := by
  rcases Program.beginRoutine_cases name s.program with ⟨failure, herror⟩ | ⟨hnone, hfresh, hok⟩
  · simp only [Build.after, herror]
    exact ⟨h, .aside⟩
  · simp only [Build.after, hok]
    constructor
    · refine ⟨h.numbered, h.counted, fun id b hb hstatus => ?_, fun r _ => List.cons_ne_nil _ _,
        h.declared.of_same rfl rfl rfl⟩
      obtain ⟨-, r, hr, -⟩ := h.opened id b hb hstatus
      rw [hnone] at hr
      cases hr
    · have hbegin := Outline.Step.begin (o := s.outline) hnone hfresh
      rw [here_outline] at hbegin
      exact hbegin

/-- Ending a routine leaves a build sound. No block is open then. -/
theorem Sound.endRoutine (h : s.Sound) (reserve : Int) :
    (s.after (.endRoutine reserve)).Sound ∧
      s.outline.Step (s.after (.endRoutine reserve)).outline := by
  rcases Program.endRoutine_cases reserve h.framed with
    ⟨failure, herror⟩ | ⟨r, length, frames, hcurrent, hnone, hlength, hfits, hok⟩
  · simp only [Build.after, herror]
    exact ⟨h, .aside⟩
  · simp only [Build.after, hok]
    constructor
    · refine ⟨h.numbered, h.counted, fun id b hb hstatus => ?_, nofun,
        h.declared.of_same rfl rfl rfl⟩
      have hsite := (h.opened id b hb hstatus).1
      rw [hnone] at hsite
      cases hsite
    · rw [← here_outline] at hlength
      have hfinish := Outline.Step.finish (o := s.outline) hcurrent hlength hfits
      simpa [outline] using hfinish

/-! ### Calls to blocks -/

/-- Opening a block leaves a build sound and the code alone. No other block is open then. -/
theorem Sound.openBlock (h : s.Sound) (capacity : Int) :
    (s.after (.openBlock capacity)).Sound ∧
      s.outline.Step (s.after (.openBlock capacity)).outline := by
  cases hcall : Program.openBlock capacity s.program with
  | error failure p =>
    simp only [Build.after, hcall, Program.openBlock_error hcall]
    exact ⟨h, .aside⟩
  | ok block p =>
    obtain ⟨hnone, hid, rfl, r, hcurrent, hworking⟩ := Block.Working.of_openBlock hcall
    simp only [Build.after, hcall]
    refine ⟨⟨fun id b hb => ?_, ?_, fun id b hb hstatus => ?_, h.framed,
      h.declared.of_same rfl rfl rfl⟩, .aside⟩
    · rcases getElem?_concat_cases hb with hold | ⟨rfl, rfl⟩
      · exact h.numbered id b hold
      · exact hid.trans h.counted
    · simp [h.counted]
    · rcases getElem?_concat_cases hb with hold | ⟨rfl, rfl⟩
      · have hsite := (h.opened id b hold hstatus).1
        rw [hnone] at hsite
        cases hsite
      · exact ⟨congrArg some h.counted, r, hcurrent, hworking⟩

/-- A build does not change if a block of it and its program are as before. -/
theorem withSite_self {id : Nat} {b : OpenedBlock} (hb : s.blocks[id]? = some b) :
    s.withSite id b.calls ⟨b.block, s.program⟩ = s := by
  obtain ⟨hlt, hget⟩ := List.getElem?_eq_some_iff.mp hb
  have hset : s.blocks.set id b = s.blocks := by
    rw [← hget, List.set_getElem_self]
  show { s with blocks := s.blocks.set id b } = s
  rw [hset]

/-- What a call to one block leaves behind: the block has its number, it is the open one of the
program as long as it is open, and the other blocks and the rest of the program are as before. -/
structure Leaves (s : Build) (id : Nat) (calls : List Call) (w : Worksite) : Prop where
  rest : ∃ code openBlock?, w.program = { s.program with code, openBlock? }
  number : w.block.id = id
  working : w.block.context.status = .open → w.program.openBlock? = some id ∧
    ∃ r, s.program.current? = some r ∧ w.block.Working calls r
  others : ∀ other, other ≠ id → s.program.openBlock? = some other →
    w.program.openBlock? = some other

/-- A build stays sound when a block of it is worked on. -/
theorem Sound.of_leaves (h : s.Sound) {id : Nat} {calls : List Call} {w : Worksite}
    (hw : s.Leaves id calls w) (pieces : List Piece) :
    Sound { s.withSite id calls w with pieces } := by
  obtain ⟨code, openBlock?, hrest⟩ := hw.rest
  have hcurrent : w.program.current? = s.program.current? := by rw [hrest]
  have hscope : w.program.scope = s.program.scope := by rw [hrest]
  have hget {other : Nat} {b : OpenedBlock}
      (hb : (s.blocks.set id { block := w.block, calls })[other]? = some b) :
      other = id ∧ b = { block := w.block, calls } ∨ other ≠ id ∧ s.blocks[other]? = some b := by
    rw [List.getElem?_set] at hb
    split at hb
    · next heq =>
      split at hb
      · cases hb
        exact .inl ⟨heq.symm, rfl⟩
      · cases hb
    · next hne => exact .inr ⟨Ne.symm hne, hb⟩
  refine ⟨fun other b hb => ?_, ?_, fun other b hb hstatus => ?_, fun r hr => ?_, ?_⟩
  · rcases hget hb with ⟨rfl, rfl⟩ | ⟨-, hold⟩
    · exact hw.number
    · exact h.numbered other b hold
  · have hcounted : w.program.blocks = s.program.blocks := by rw [hrest]
    show w.program.blocks = (s.blocks.set id _).length
    rw [hcounted, List.length_set]
    exact h.counted
  · show w.program.openBlock? = some other ∧ ∃ r, w.program.current? = some r ∧ _
    rw [hcurrent]
    rcases hget hb with ⟨rfl, rfl⟩ | ⟨hne, hold⟩
    · exact hw.working hstatus
    · obtain ⟨hsite, hinside⟩ := h.opened other b hold hstatus
      exact ⟨hw.others other hne hsite, hinside⟩
  · show w.program.scope.frames ≠ []
    rw [hscope]
    exact h.framed r (hcurrent.symm.trans hr)
  · have hbase : w.program.dataBase = s.program.dataBase := by rw [hrest]
    have hcells : w.program.dataCells = s.program.dataCells := by rw [hrest]
    exact h.declared.of_same hbase hcells (congrArg Scope.globals hscope)

/-- The outline of a build after a block of it was worked on. -/
theorem Leaves.outline_eq {id : Nat} {calls : List Call} {w : Worksite}
    (hw : s.Leaves id calls w) (pieces : List Piece) :
    outline { s.withSite id calls w with pieces } =
      { s.outline with code := w.program.code.toList, pieces } := by
  obtain ⟨code, openBlock?, hrest⟩ := hw.rest
  unfold outline withSite
  rw [hrest]

/-- What happens aside of the code. -/
theorem Leaves.aside {id : Nat} {calls : List Call} {w : Worksite} (hw : s.Leaves id calls w)
    (hcode : w.program.code = s.program.code) :
    s.outline.Step (s.withSite id calls w).outline := by
  have houtline := hw.outline_eq s.pieces
  rw [hcode] at houtline
  exact houtline ▸ .aside

/-- What concerns one block alone leaves a build sound and the code alone. -/
theorem Sound.of_block (h : s.Sound) {id : Nat} {b : OpenedBlock} (hb : s.blocks[id]? = some b)
    {calls : List Call} {w : Worksite} (hprogram : w.program = s.program)
    (hid : w.block.id = b.block.id)
    (hworking : w.block.context.status = .open → b.block.context.status = .open ∧
      ∀ r, b.block.Working b.calls r → w.block.Working calls r) :
    (s.withSite id calls w).Sound ∧ s.outline.Step (s.withSite id calls w).outline := by
  have hleaves : s.Leaves id calls w := by
    refine ⟨⟨_, _, hprogram⟩, hid.trans (h.numbered id b hb), fun hopen => ?_, fun _ _ hother => ?_⟩
    · obtain ⟨hstatus, hnext⟩ := hworking hopen
      obtain ⟨hsite, r, hcurrent, hbefore⟩ := h.opened id b hb hstatus
      rw [hprogram]
      exact ⟨hsite, r, hcurrent, hnext r hbefore⟩
    · rw [hprogram]
      exact hother
  exact ⟨h.of_leaves hleaves _, hleaves.aside (by rw [hprogram])⟩

/-- A call to a block leaves a build sound and the code alone. -/
theorem Sound.work (h : s.Sound) (id : Nat) (call : BlockCall) (hkeeps : call.KeepsScope) :
    (s.after (.work id call hkeeps)).Sound ∧
      s.outline.Step (s.after (.work id call hkeeps)).outline := by
  cases hb : s.blocks[id]? with
  | none =>
    simp only [Build.after, hb]
    exact ⟨h, .aside⟩
  | some b =>
    by_cases hstatus : b.block.context.status = .open
    · obtain ⟨-, r, -, hworking⟩ := h.opened id b hb hstatus
      cases hcall : call.perform ⟨b.block, s.program⟩ with
      | error failure w =>
        simp only [Build.after, hb, hcall, hworking.refused hcall, withSite_self hb]
        exact ⟨h, .aside⟩
      | ok _ w =>
        simp only [Build.after, hb, hcall]
        obtain ⟨hprogram, hid, -⟩ := hworking.perform hkeeps hcall
        refine h.of_block hb hprogram hid fun _ => ⟨hstatus, fun r' hworking' => ?_⟩
        exact (hworking'.perform hkeeps hcall).2.2
    · rcases BlockCall.perform_of_closed hkeeps (w := ⟨b.block, s.program⟩) hstatus with
        ⟨failure, hcall⟩ | ⟨w, hcall, hprogram, hid, hcontext⟩
      · simp only [Build.after, hb, hcall, withSite_self hb]
        exact ⟨h, .aside⟩
      · simp only [Build.after, hb, hcall]
        exact h.of_block hb hprogram hid fun hopen => absurd (hcontext ▸ hopen) hstatus

/-- Closing a block leaves a build sound, and puts the stream of the block at the end of the code if
it succeeds. -/
theorem Sound.close (h : s.Sound) (id : Nat) :
    (s.after (.close id)).Sound ∧ s.outline.Step (s.after (.close id)).outline := by
  cases hb : s.blocks[id]? with
  | none =>
    simp only [Build.after, hb]
    exact ⟨h, .aside⟩
  | some b =>
    have hrefused (hclose : ∃ failure,
        Worksite.close ⟨b.block, s.program⟩ = .error failure ⟨b.block, s.program⟩) :
        (s.after (.close id)).Sound ∧ s.outline.Step (s.after (.close id)).outline := by
      obtain ⟨failure, herror⟩ := hclose
      simp only [Build.after, hb, herror, withSite_self hb]
      exact ⟨h, .aside⟩
    by_cases hstatus : b.block.context.status = .open
    · obtain ⟨hsite, r, hcurrent, hworking⟩ := h.opened id b hb hstatus
      rcases Worksite.close_cases hworking s.program with
        hclose | ⟨routine, w, cells, hclose, hprogram, hid, hdone, hcells⟩
      · exact hrefused hclose
      · simp only [Build.after, hb, hclose]
        have hleaves : s.Leaves id b.calls w := by
          refine ⟨⟨_, _, hprogram⟩, hid.trans (h.numbered id b hb), fun hopen => ?_,
            fun other hne hother => ?_⟩
          · rw [hdone] at hopen
            cases hopen
          · exact absurd (Option.some.inj (hother.symm.trans hsite)) hne
        refine ⟨h.of_leaves hleaves _, ?_⟩
        have hcode : w.program.code.toList = s.outline.code ++ cells.toList := by
          rw [hprogram]
          exact Array.toList_append
        rw [hleaves.outline_eq, hcode]
        refine .append fun r' hr' => ?_
        cases hcurrent.symm.trans hr'
        rw [here_outline]
        exact hcells
    · exact hrefused (Worksite.close_refused (.inl hstatus))

/-- Giving a block up leaves a build sound and the code alone. -/
theorem Sound.discard (h : s.Sound) (id : Nat) :
    (s.after (.discard id)).Sound ∧ s.outline.Step (s.after (.discard id)).outline := by
  cases hb : s.blocks[id]? with
  | none =>
    simp only [Build.after, hb]
    exact ⟨h, .aside⟩
  | some b =>
    simp only [Build.after, hb]
    have hid := h.numbered id b hb
    have hworking (hstatus : b.block.context.status = .open) :
        ∃ calls r, b.block.Working calls r := by
      obtain ⟨-, r, -, hworking⟩ := h.opened id b hb hstatus
      exact ⟨b.calls, r, hworking⟩
    obtain ⟨hprogram, hnumber, hclosed⟩ :=
      Worksite.discard_closes (w := ⟨b.block, s.program⟩) hworking
    obtain ⟨openBlock?, hreleased, hothers⟩ := Worksite.released_program ⟨b.block, s.program⟩
    rw [hreleased] at hprogram
    have hleaves : s.Leaves id b.calls (Worksite.discard.after ⟨b.block, s.program⟩) := by
      refine ⟨⟨_, _, hprogram⟩, hnumber.trans hid, fun hopen => absurd hopen hclosed,
        fun other hne hother => ?_⟩
      rw [hprogram]
      exact hothers other (hid ▸ hne) hother
    exact ⟨h.of_leaves hleaves _, hleaves.aside (by rw [hprogram])⟩

/-! ### Runs -/

/-- **A call leaves a build sound, and does one of four things to the code**, whether it succeeds or
fails. -/
theorem Sound.after (h : s.Sound) (call : BuildCall) :
    (s.after call).Sound ∧ s.outline.Step (s.after call).outline := by
  cases call with
  | declareGlobal name init => exact h.declareGlobal name init
  | declareLocal name offset => exact h.declareLocal name offset
  | beginRoutine name => exact h.beginRoutine name
  | append cells => exact h.append cells
  | endRoutine reserve => exact h.endRoutine reserve
  | openBlock capacity => exact h.openBlock capacity
  | work id call hkeeps => exact h.work id call hkeeps
  | close id => exact h.close id
  | discard id => exact h.discard id

/-- A build of a new program is sound. -/
theorem sound_start {dataBase : Addr} {dataCells : Int} {p : Program}
    (h : Program.new dataBase dataCells = .ok p) : (start p).Sound := by
  have hblocks (id : Nat) (b : OpenedBlock) : (start p).blocks[id]? ≠ some b := by
    simp [start]
  unfold Program.new at h
  split at h
  · cases h
  · cases h
    refine ⟨fun id b hb => absurd hb (hblocks id b), rfl, fun id b hb => absurd hb (hblocks id b),
      fun r hr => (nomatch hr), rfl, fun i g hg => ?_, List.nodup_nil, Nat.zero_le _⟩
    simp [start] at hg

/-- **A build stays sound along every run of calls**, and its code changes in the four ways
alone. -/
theorem Sound.afterAll (calls : List BuildCall) :
    ∀ {s : Build}, s.Sound → (s.afterAll calls).Sound ∧
      Relation.ReflTransGen Outline.Step s.outline (s.afterAll calls).outline := by
  induction calls with
  | nil =>
    intro s h
    exact ⟨h, .refl⟩
  | cons call rest ih =>
    intro s h
    obtain ⟨hsound, hstep⟩ := h.after call
    obtain ⟨hend, hsteps⟩ := ih hsound
    exact ⟨hend, .head hstep hsteps⟩

end Build

end CellMachine
