import CellMachine.Proofs.Emission.Refusal
import CellMachine.Proofs.Machine.Decoders
import CellMachine.Proofs.Operand.Generic

/-!
# Accesses to variables

A generic mnemonic is an access to a variable: the variable lives at an address, which for a frame
offset depends on the frame pointer, and the access reads the cell there, writes it, counts it up or
down, or is after the address alone. The instruction that a static emission writes for it should do
that in every machine, whichever variant was chosen and however the operand was given.

* `Generic.outcome` — what an access to an address does to a machine.
* `Generic.Acts` — an instruction and its operand cell do that in every machine, at the address of
  a place.
* `Generic.acts_variant` — **the variant of a place with the cell of the place acts on it.**
* `Generic.acts_constP_iff` — a literal acts as the address of a global variable only if it is it.
* `Emission.emit_acts_iff` — **what is emitted for a generic mnemonic acts on its variable**, unless
  the address was asked for through an operand that asks for contents: then the contents of the
  variable take the place of its address.
-/

namespace CellMachine

open CellMachine.Action

/-- No two instructions share an opcode cell. -/
theorem Op.cell_injective {a b : Op} (h : a.cell = b.cell) : a = b := by
  have hcell := a.ofCell?_cell
  rw [h, b.ofCell?_cell] at hcell
  exact (Option.some.inj hcell).symm

namespace Memory

/-- The cell at an address, if the address lies in the memory. -/
def cellAt? (m : Memory) (a : Addr) : Option Cell :=
  if 0 ≤ a.toInt then m.cells[a.toInt.toNat]? else none

/-- The memory with another cell at an address. -/
def withCell (m : Memory) (a : Addr) (v : Cell) : Memory :=
  { m with cells := m.cells.setIfInBounds a.toInt.toNat v }

/-- An address with a cell lies in the memory. -/
theorem inBounds_of_cellAt? {m : Memory} {a : Addr} {v : Cell} (h : m.cellAt? a = some v) :
    m.inBounds a := by
  unfold cellAt? at h
  split at h
  · next hlow =>
    have hlt := (Array.getElem?_eq_some_iff.mp h).1
    exact inBounds_iff.mpr ⟨hlow, by omega⟩
  · cases h

/-- An address without a cell lies outside the memory. -/
theorem not_inBounds_of_cellAt? {m : Memory} {a : Addr} (h : m.cellAt? a = none) :
    ¬m.inBounds a := by
  intro hin
  obtain ⟨hlow, hhigh⟩ := inBounds_iff.mp hin
  unfold cellAt? at h
  rw [if_pos hlow, Array.getElem?_eq_none_iff] at h
  omega

/-- The cell at an address is what is loaded from it. -/
theorem load_of_cellAt? {m : Memory} {a : Addr} {v : Cell} (h : m.cellAt? a = some v) :
    m.load a = .ok v := by
  unfold cellAt? at h
  split at h
  · next hlow => exact load_of_getElem? (Int.toNat_of_nonneg hlow).symm h
  · cases h

end Memory

namespace Machine

section Cells

variable {x : Machine} {a : Addr} {v : Cell}

/-- Loading reads the cell at the address. -/
theorem load_of_cellAt? (h : x.memory.cellAt? a = some v) : load a x = .ok v x := by
  unfold load
  rw [Memory.load_of_cellAt? h]

/-- Nothing is loaded from outside the memory. -/
theorem load_outside (h : x.memory.cellAt? a = none) :
    load a x = .error (.outOfBounds (.load a)) x := by
  unfold load Memory.load
  rw [if_neg (Memory.not_inBounds_of_cellAt? h)]

/-- Storing sets the cell at the address. -/
theorem store_of_cellAt? (h : x.memory.cellAt? a = some v) (w : Cell) :
    store a w x = .ok () { x with memory := x.memory.withCell a w } := by
  have hstored := Memory.store_of_bounds (Memory.inBounds_of_cellAt? h) w
  unfold store onMemory
  simp only [hstored]
  rfl

/-- Nothing is stored outside the memory. -/
theorem store_outside (h : x.memory.cellAt? a = none) (w : Cell) :
    store a w x = .error (.outOfBounds (.store a)) x := by
  have hrefused : Memory.store a w x.memory = .error (.outOfBounds (.store a)) x.memory :=
    if_neg (Memory.not_inBounds_of_cellAt? h)
  unfold store onMemory
  simp only [hrefused]

/-- Adding to a cell replaces it by the sum. -/
theorem addTo_of_cellAt? (h : x.memory.cellAt? a = some v) (delta : Cell) :
    addTo a delta x = .ok () { x with memory := x.memory.withCell a (v + delta) } :=
  (bind_of_ok (load_of_cellAt? h)).trans (store_of_cellAt? h _)

/-- Nothing is added to outside the memory. -/
theorem addTo_outside (h : x.memory.cellAt? a = none) (delta : Cell) :
    addTo a delta x = .error (.outOfBounds (.load a)) x := bind_of_error (load_outside h)

end Cells

end Machine

/-! ### One access -/

namespace Generic

/-- What an access to the address `a` does to a machine. -/
def outcome (g : Generic) (a : Addr) (x : Machine) : EStateM.Result Failure Machine Unit :=
  match g, x.memory.cellAt? a with
  | .addrP, _ => .ok () { x with processor := { x.processor with p := a } }
  | .loadP, some v => .ok () { x with processor := { x.processor with p := v } }
  | .loadS, some v => .ok () { x with processor := { x.processor with s := v } }
  | .storP, some _ => .ok () { x with memory := x.memory.withCell a x.processor.p }
  | .storS, some _ => .ok () { x with memory := x.memory.withCell a x.processor.s }
  | .inc, some v => .ok () { x with memory := x.memory.withCell a (v + 1) }
  | .dec, some v => .ok () { x with memory := x.memory.withCell a (v - 1) }
  | .storP, none | .storS, none => .error (.outOfBounds (.store a)) x
  | .loadP, none | .loadS, none | .inc, none | .dec, none => .error (.outOfBounds (.load a)) x

/-- An access fails exactly if it is after a cell and there is none. -/
theorem outcome_error_iff (g : Generic) (a : Addr) (x : Machine) :
    (∃ failure y, g.outcome a x = .error failure y) ↔ g ≠ .addrP ∧ ¬x.memory.inBounds a := by
  cases hcell : x.memory.cellAt? a with
  | some v =>
    have hin := Memory.inBounds_of_cellAt? hcell
    cases g <;> simp [outcome, hcell, hin]
  | none =>
    have hout := Memory.not_inBounds_of_cellAt? hcell
    cases g <;> simp [outcome, hcell, hout]

/-- An access that fails was out of bounds. -/
theorem kinds_of_outcome {g : Generic} {a : Addr} {x y : Machine} {failure : Failure}
    (h : g.outcome a x = .error failure y) : failure.kinds = [.outOfBounds] := by
  unfold outcome at h
  split at h <;> cases h <;> rfl

/-- The variant for a fixed address acts on the address. -/
theorem execute_global (g : Generic) (pc a b : Addr) (x : Machine) :
    Machine.execute pc a b g.global x = g.outcome a x := by
  cases hcell : x.memory.cellAt? a with
  | some v =>
    have hload := Machine.load_of_cellAt? hcell
    have hadd := Machine.addTo_of_cellAt? hcell
    have hstore := Machine.store_of_cellAt? hcell
    unfold outcome
    rw [hcell]
    cases g with
    | addrP => rfl
    | loadP | loadS => exact bind_of_ok hload
    | storP => exact (bind_of_ok rfl).trans (hstore x.processor.p)
    | storS => exact (bind_of_ok rfl).trans (hstore x.processor.s)
    | inc => exact hadd 1
    | dec =>
      show _ = EStateM.Result.ok () { x with memory := x.memory.withCell a (v - 1) }
      rw [Int64.sub_eq_add_neg]
      exact hadd (-1)
  | none =>
    have hload := Machine.load_outside hcell
    have hadd := Machine.addTo_outside hcell
    have hstore := Machine.store_outside hcell
    unfold outcome
    rw [hcell]
    cases g with
    | addrP => rfl
    | loadP | loadS => exact bind_of_error hload
    | storP => exact (bind_of_ok rfl).trans (hstore x.processor.p)
    | storS => exact (bind_of_ok rfl).trans (hstore x.processor.s)
    | inc => exact hadd 1
    | dec => exact hadd (-1)

/-- The variant for a frame offset does what the other one does at the address of the offset. -/
theorem execute_frame (g : Generic) (pc o b : Addr) (x : Machine) :
    Machine.execute pc o b g.frame x =
      Machine.execute pc (x.processor.fp + o) b g.global x := by
  cases g <;> rfl

/-- The variant of a place acts on the address of the place. -/
theorem execute_variant (g : Generic) (place : Place) (pc b : Addr) (x : Machine) :
    Machine.execute pc place.cell b (g.variant place) x =
      g.outcome (place.addr x.processor.fp) x := by
  cases place with
  | fixed a => exact execute_global g pc a b x
  | offset o => exact (execute_frame g pc o b x).trans (execute_global g pc _ b x)

end Generic

/-! ### One step -/

namespace Machine

/-- The machine has a step left, and the instruction that it executes next is `op` with the operand
cell `v`. -/
structure Meets (x : Machine) (op : Op) (v : Cell) : Prop where
  unspent : ¬x.spent
  opcode : x.memory.load x.processor.pc = .ok op.cell
  operand : x.memory.load (x.processor.pc + 1) = .ok v

/-- The machine that has counted a step and gone behind an instruction of two cells. -/
def passed (x : Machine) : Machine :=
  { x with processor :=
    { x.processor with steps := x.processor.steps + 1, pc := x.processor.pc + 2 } }

/-- What a step comes to whose instruction, `op` at the address `pc`, has had an outcome. -/
def stepped (pc : Addr) (op : Op) :
    EStateM.Result Failure Machine Unit → EStateM.Result Failure Machine Bool
  | .ok () y => .ok false y
  | .error cause y => .error (.machineFault pc op.code cause) y

/-- An instruction with one operand cell does not end a run. -/
theorem perform_of_slot {op : Op} (hslot : op.slots.length = 1) (pc v : Addr) (x : Machine) :
    perform pc (.ofOperands op [v]) x =
      match execute pc v 0 op x with
      | .ok () y => .ok false y
      | .error cause y => .error cause y := by
  have hsequence : perform pc (.ofOperands op [v]) = (do execute pc v 0 op; return false) := by
    unfold perform Fetched.ofOperands
    dsimp only
    split
    · exact absurd hslot (by decide)
    · exact absurd hslot (by decide)
    · rfl
  rw [hsequence]
  cases hrun : execute pc v 0 op x with
  | ok done y => exact bind_of_ok hrun
  | error cause y => exact bind_of_error hrun

/-- **A step executes the instruction that the machine meets**, on the machine that is behind it. -/
theorem step_of_meets {x : Machine} {op : Op} {v : Cell} (h : x.Meets op v)
    (hslot : op.slots.length = 1) :
    step x = stepped x.processor.pc op (execute x.processor.pc v 0 op x.passed) := by
  have hholds : x.memory.Holds (x.processor.pc + 1) [v] := by
    intro i w hw
    cases i with
    | zero =>
      cases hw
      rw [show x.processor.pc + 1 + Int64.ofNat 0 = x.processor.pc + 1 from Int64.add_zero _]
      exact h.operand
    | succ i => cases hw
  have hlength : [v].length = op.slots.length := hslot.symm
  have hfetch := Memory.fetch_of_op h.opcode op.ofCell?_cell hlength hholds
  have hpassed : x.advanced (.ofOperands op [v]) = x.passed := by
    unfold advanced passed
    show ({ x with processor := { x.processor with
      steps := x.processor.steps + 1, pc := x.processor.pc + Int64.ofNat op.width } } : Machine) = _
    rw [Op.width, hslot]
    rfl
  rw [step_eq h.unspent hfetch, hpassed, perform_of_slot hslot]
  cases execute x.processor.pc v 0 op x.passed with
  | ok done y => rfl
  | error cause y => rfl

end Machine

namespace Generic

/-- Wherever a machine meets the instruction `op` with the operand cell `v`, its step is the access
to the address of the place. -/
def Acts (g : Generic) (place : Place) (op : Op) (v : Cell) : Prop :=
  ∀ x : Machine, x.Meets op v →
    Machine.step x =
      Machine.stepped x.processor.pc op (g.outcome (place.addr x.processor.fp) x.passed)

/-- A variant has one operand cell. -/
theorem length_slots_variant (g : Generic) (place : Place) :
    (g.variant place).slots.length = 1 := by
  cases place <;> cases g <;> rfl

/-- **The variant of a place acts on the place.** -/
theorem acts_variant (g : Generic) (place : Place) :
    g.Acts place (g.variant place) place.cell := by
  intro x hx
  rw [Machine.step_of_meets hx (length_slots_variant g place), execute_variant]
  rfl

/-- A literal is put into the register as it is. -/
theorem step_of_constP {x : Machine} {v : Cell} (h : x.Meets .constP v) :
    Machine.step x =
      .ok false { x.passed with processor := { x.passed.processor with p := v } } :=
  Machine.step_of_meets h rfl

/-- A machine that meets a literal first. -/
def literalMachine (v : Cell) : Machine where
  processor := {}
  memory := { cells := #[Op.constP.cell, v], next := 0, limit := 0 }

/-- **A literal acts as the address of a variable only if it is that address.** -/
theorem acts_constP_iff (a v : Cell) : addrP.Acts (.fixed a) .constP v ↔ v = a := by
  constructor
  · intro h
    have hmeets : (literalMachine v).Meets .constP v :=
      ⟨of_decide_eq_true rfl, rfl, rfl⟩
    obtain ⟨-, hsame⟩ := EStateM.Result.ok.inj ((step_of_constP hmeets).symm.trans (h _ hmeets))
    exact congrArg (·.processor.p) hsame
  · rintro rfl
    exact acts_variant .addrP (.fixed v)

/-- Wherever a machine meets the instruction, its step fails exactly if the access is after a cell
and the place lies outside the memory; and it fails for that reason. -/
def FaultsOutside (g : Generic) (place : Place) (op : Op) (v : Cell) : Prop :=
  ∀ x : Machine, x.Meets op v →
    ((∃ failure y, Machine.step x = .error failure y) ↔
      g ≠ .addrP ∧ ¬x.memory.inBounds (place.addr x.processor.fp)) ∧
    ∀ failure y, Machine.step x = .error failure y → failure.kinds = [.outOfBounds]

/-- An instruction that acts on a place fails as the access does. -/
theorem Acts.faultsOutside {g : Generic} {place : Place} {op : Op} {v : Cell}
    (h : g.Acts place op v) : g.FaultsOutside place op v := by
  intro x hx
  rw [h x hx]
  have hfails := g.outcome_error_iff (place.addr x.processor.fp) x.passed
  cases houtcome : g.outcome (place.addr x.processor.fp) x.passed with
  | ok done y =>
    rw [houtcome] at hfails
    refine ⟨⟨?_, fun hout => ?_⟩, ?_⟩
    · rintro ⟨failure, z, hstep⟩
      cases hstep
    · obtain ⟨failure, z, houtcome⟩ := hfails.mpr hout
      cases houtcome
    · intro failure z hstep
      cases hstep
  | error cause y =>
    rw [houtcome] at hfails
    refine ⟨⟨fun _ => hfails.mp ⟨cause, y, rfl⟩, fun _ => ⟨_, _, rfl⟩⟩, ?_⟩
    intro failure z hstep
    cases hstep
    show cause.kinds = _
    exact kinds_of_outcome houtcome

/-- The address of a variable was asked for by an operand that asks for contents, and the contents
`v` of the variable are not its address. -/
def Misread (g : Generic) (r : Resolver) (operand : Operand) (v : Cell) : Prop :=
  g = .addrP ∧ ∃ name symbol, operand = .contents (.named name) ∧
    r.symbol? name = some symbol ∧ symbol.contents? = some v ∧ v ≠ symbol.location

/-- **What encodes an access acts on the variable of the operand, unless it is misread.** Misread or
not, it fails exactly if the access does. -/
theorem Encodes.acts_iff {g : Generic} {r : Resolver} {operand : Operand} {op : Op} {v : Cell}
    (h : g.Encodes r operand op v) :
    ∃ var place, operand.var? = some var ∧ r.place? var = some place ∧
      (g.Acts place op v ↔ ¬g.Misread r operand v) ∧ g.FaultsOutside place op v := by
  cases h with
  | @location var place hplace =>
    have hacts := g.acts_variant place
    refine ⟨var, place, rfl, hplace, iff_of_true hacts ?_, hacts.faultsOutside⟩
    rintro ⟨-, name, symbol, hoperand, -⟩
    cases hoperand
  | @contents name symbol _ haddress hsymbol hstorage hcontents =>
    subst haddress
    have hplace : r.place? (.named name) = some (.fixed symbol.location) := by
      rw [Resolver.place?, hsymbol]
      show symbol.place? = _
      rw [Symbol.place?, hstorage]
    refine ⟨.named name, _, rfl, hplace, ?_, ?_⟩
    · rw [acts_constP_iff]
      constructor
      · rintro hv ⟨-, name', symbol', hoperand, hsymbol', -, hne⟩
        cases hoperand
        rw [hsymbol] at hsymbol'
        cases hsymbol'
        exact hne hv
      · intro hright
        by_contra hv
        exact hright ⟨rfl, name, symbol, rfl, hsymbol, hcontents, hv⟩
    · intro x hx
      rw [step_of_constP hx]
      refine ⟨⟨?_, fun hout => absurd rfl hout.1⟩, ?_⟩
      · rintro ⟨failure, y, hstep⟩
        cases hstep
      · intro failure y hstep
        cases hstep

end Generic

/-! ### Emitted accesses -/

namespace Emission

variable {ρ : Type} [Region ρ] [LawfulRegion ρ] [GuardedRegion ρ] {e e' : Emission ρ}
  {symbols? : Option SymbolTable}

/-- A region that has taken an instruction accepted writes. -/
theorem writable_of_emitOp {op : Op} {operands : List Operand}
    (h : emitOp symbols? op operands e = .ok () e') : LawfulRegion.Writable e.region := by
  rw [emitOp_eq] at h
  split at h
  · split at h
    · cases h
    · split at h
      · cases h
      · unfold writeInstruction at h
        obtain ⟨⟨⟩, e₁, hstore, -⟩ := ok_of_bind h
        unfold store onRegion at hstore
        split at hstore
        · next hregion => exact (GuardedRegion.writable_of_store hregion).1
        · cases hstore
  · cases h

/-- An instruction that was emitted for a mnemonic was chosen, resolved and written. -/
theorem wrote_of_emit {mnemonic : String} {operands : List Operand}
    (hcapacity : e.context.capacity = Region.capacity e.region)
    (h : emit symbols? mnemonic operands e = .ok () e') :
    ∃ op encs, Resolver.chooseOp ⟨e.context.mode, symbols?⟩ mnemonic operands = .ok op ∧
      Resolver.resolveAll ⟨e.context.mode, symbols?⟩ op operands = .ok encs ∧
      WroteInstruction op encs e e' := by
  rw [emit_eq] at h
  split at h
  · split at h
    · cases h
    · next op hop =>
      obtain ⟨encs, hencs, -, hwrote⟩ := emitOp_ok h (writable_of_emitOp h) hcapacity
      exact ⟨op, encs, hop, hencs, hwrote⟩
  · cases h

/-- **What a static emission writes for a generic mnemonic acts on the variable of its operand**, in
every machine that comes to it, unless contents were read for the address. It fails exactly if the
access is after a cell of the variable and there is none, and says so. -/
theorem emit_acts_iff {mnemonic : String} {g : Generic} {operands : List Operand}
    (hstatic : e.context.mode = .static)
    (hcapacity : e.context.capacity = Region.capacity e.region)
    (hg : Generic.ofMnemonic? mnemonic = some g)
    (h : emit symbols? mnemonic operands e = .ok () e') :
    ∃ operand var place op v, operands = [operand] ∧ operand.var? = some var ∧
      Resolver.place? ⟨.static, symbols?⟩ var = some place ∧
      e'.context.cursor = e.context.cursor + 2 ∧
      Region.load e'.region e.context.cursor = .ok op.cell ∧
      Region.load e'.region (e.context.cursor + 1 : Nat) = .ok v ∧
      (g.Acts place op v ↔ ¬g.Misread ⟨.static, symbols?⟩ operand v) ∧
      g.FaultsOutside place op v := by
  obtain ⟨op, encs, hop, hencs, hwrote⟩ := wrote_of_emit hcapacity h
  rw [hstatic] at hop hencs
  obtain ⟨operand, v, rfl, rfl, hencodes⟩ := Resolver.encodes_of_chooseOp rfl hg hop hencs
  obtain ⟨var, place, hvar, hplace, hacts, hfaults⟩ := hencodes.acts_iff
  refine ⟨operand, var, place, op, v, rfl, hvar, hplace, ?_, ?_, ?_, hacts, hfaults⟩
  · rw [hwrote.context, ← hencodes.width]
  · exact hwrote.stored.inside 0 op.cell rfl
  · exact hwrote.stored.inside 1 v rfl

/-- An emission that has just begun. -/
def sampleStart : Emission Buffer :=
  ⟨Context.openStatic EmissionCall.sampleBuffer, EmissionCall.sampleBuffer⟩

/-- A variable at the address three that holds five. -/
def sampleVariable : Option SymbolTable := EmissionCall.sampleSymbols (some 5)

/-- What is emitted for the address of the variable through its contents is five, and acts as an
access to the variable nowhere; what is emitted for counting the variable up does. -/
theorem emit_acts_iff_sample :
    (∃ e', emit sampleVariable "ADDR.U.P" [.contents (.named "n")] sampleStart = .ok () e' ∧
      Region.load e'.region 0 = .ok Op.constP.cell ∧ Region.load e'.region 1 = .ok 5 ∧
      ¬Generic.addrP.Acts (.fixed 3) .constP 5) ∧
    ∃ e', emit sampleVariable "inc.u" [.location (.named "n")] sampleStart = .ok () e' ∧
      Region.load e'.region 0 = .ok Op.incG.cell ∧ Region.load e'.region 1 = .ok 3 ∧
      Generic.inc.Acts (.fixed 3) .incG 3 ∧ Generic.inc.FaultsOutside (.fixed 3) .incG 3 := by
  refine ⟨?_, ?_⟩
  · have hemit : emit sampleVariable "ADDR.U.P" [.contents (.named "n")] sampleStart =
        .ok () ((emit sampleVariable "ADDR.U.P" [.contents (.named "n")]).after sampleStart) := by
      rfl
    obtain ⟨operand, var, place, op, v, hoperand, hvar, hplace, -, hopcode, hv, hacts, -⟩ :=
      emit_acts_iff rfl rfl (by decide +kernel : Generic.ofMnemonic? "ADDR.U.P" = some .addrP) hemit
    cases hoperand
    cases hvar
    cases hplace
    cases Op.cell_injective (Except.ok.inj hopcode)
    cases hv
    refine ⟨_, hemit, rfl, rfl, fun hright => hacts.mp hright ?_⟩
    exact ⟨rfl, "n", _, rfl, rfl, rfl, by decide⟩
  · have hemit : emit sampleVariable "inc.u" [.location (.named "n")] sampleStart =
        .ok () ((emit sampleVariable "inc.u" [.location (.named "n")]).after sampleStart) := by
      rfl
    obtain ⟨operand, var, place, op, v, hoperand, hvar, hplace, -, hopcode, hv, hacts, hfaults⟩ :=
      emit_acts_iff rfl rfl (by decide +kernel : Generic.ofMnemonic? "inc.u" = some .inc) hemit
    cases hoperand
    cases hvar
    cases hplace
    cases Op.cell_injective (Except.ok.inj hopcode)
    cases hv
    refine ⟨_, hemit, rfl, rfl, hacts.mpr ?_, hfaults⟩
    rintro ⟨hwrong, -⟩
    cases hwrong

end Emission

end CellMachine
