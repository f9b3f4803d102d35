import CellMachine.Operand.Resolve

/-!
# What resolved operands look like

The operands that a resolver accepts fit the slots of the instruction one by one, and each is
encoded in a cell of its own (`exists_encoded`, `exists_operand`). So an instruction gets as many
operand cells as it has slots (`length_of_resolveAll`), and a label operand stands in a label slot
and carries the rule of the instruction (`label_of_resolveAll`).

In the instruction table a label slot is the only slot of its instruction, and the instruction has
a rule for it (`slots_of_label`, `patch_of_label`). So an instruction with a label operand has no
other operand (`eq_singleton_of_label`), and its label stands in the cell after the opcode.
-/

namespace CellMachine

namespace Op

/-- A label slot is the only slot of its instruction. -/
theorem slots_of_label {op : Op} (h : Kind.label ∈ op.slots) : op.slots = [.label] := by
  revert h
  cases op <;> decide

/-- An instruction with a label slot computes the operand from the start of the routine or from the
operand cell. -/
theorem patch_of_label {op : Op} (h : Kind.label ∈ op.slots) :
    op.patch = .absolute ∨ op.patch = .relative := by
  revert h
  cases op <;> decide

/-- The cell of an opcode is read as its instruction. -/
theorem ofCell?_cell (op : Op) : ofCell? op.cell = some op := by
  cases op <;> rfl

/-- The low bits of an opcode cell are the opcode. -/
theorem opcodeOf_cell (op : Op) : opcodeOf op.cell = op.code := by
  cases op <;> rfl

/-- Operands that fit are as many as there are slots. -/
theorem length_of_checkShape {op : Op} {shape : List Kind} (h : op.checkShape shape = .ok ()) :
    shape.length = op.slots.length := by
  unfold checkShape at h
  by_cases hlen : shape.length = op.slots.length
  · exact hlen
  · rw [if_pos hlen] at h
    cases h

end Op

/-- A slot that takes a label is a label slot. -/
theorem Kind.eq_label_of_accepts {slot : Kind} (h : slot.accepts .label = true) :
    slot = .label := by
  revert h
  cases slot <;> simp [Kind.accepts]

namespace Resolver

/-- A sequence of results that gives something has two parts that do. -/
theorem ok_of_bind {α β : Type} {x : Except Failure α} {f : α → Except Failure β} {b : β}
    (h : (x >>= f) = .ok b) : ∃ a, x = .ok a ∧ f a = .ok b := by
  cases x with
  | ok a => exact ⟨a, rfl, h⟩
  | error failure => cases h

/-- A label is the encoding of a label operand alone, and carries the rule of the instruction. -/
theorem encode_eq_label {r : Resolver} {op : Op} {slot : Kind} {operand : Operand} {name : String}
    {rule : PatchRule} (h : r.encode op slot operand = .ok (.label name rule)) :
    operand = .label name ∧ rule = op.patch := by
  cases operand with
  | immediate value => cases h
  | location var =>
    cases var with
    | raw addr => cases h
    | named n =>
      obtain ⟨symbol, -, h⟩ := ok_of_bind h
      dsimp only at h
      split at h <;> cases h
  | contents var =>
    simp only [encode] at h
    split at h
    · cases var with
      | raw addr => cases h
      | named n =>
        obtain ⟨symbol, -, h⟩ := ok_of_bind h
        split at h <;> cases h
    · cases h
  | label n =>
    simp only [encode] at h
    split at h
    · cases h
      exact ⟨rfl, rfl⟩
    · cases h

/-- A label operand is encoded as a label. -/
theorem encode_label_ok {r : Resolver} {op : Op} {slot : Kind} {name : String} {enc : Encoded}
    (h : r.encode op slot (.label name) = .ok enc) : enc = .label name op.patch := by
  simp only [encode] at h
  split at h
  · cases h
    rfl
  · cases h

/-- An operand that is resolved fits its slot and is encoded for it. -/
theorem resolve_ok {r : Resolver} {op : Op} {slot : Nat} {operand : Operand} {enc : Encoded}
    (h : r.resolve op slot operand = .ok enc) :
    ∃ wanted, op.slots[slot]? = some wanted ∧ wanted.accepts operand.kind = true ∧
      r.encode op wanted operand = .ok enc := by
  unfold resolve at h
  rw [if_neg (by omega), Int.toNat_natCast] at h
  rcases hs : op.slots[slot]? with _ | wanted
  · rw [hs] at h
    cases h
  · rw [hs] at h
    by_cases ha : wanted.accepts operand.kind = true
    · refine ⟨wanted, rfl, ha, ?_⟩
      simp only [ha, if_true] at h
      cases he : r.encode op wanted operand with
      | error failure =>
        rw [he] at h
        cases h
      | ok enc' =>
        rw [he] at h
        cases h
        rfl
    · simp only [ha, Bool.false_eq_true, if_false] at h
      cases h

/-- Operands that are resolved one after the other give one cell each. -/
theorem resolveFrom_ok {r : Resolver} {op : Op} :
    (operands : List Operand) → ∀ {slot : Nat} {encs : List Encoded},
      r.resolveFrom op slot operands = .ok encs → encs.length = operands.length ∧
        ∀ k operand, operands[k]? = some operand →
          ∃ enc, encs[k]? = some enc ∧ r.resolve op (slot + k : Nat) operand = .ok enc
  | [], _, _, h => by
    cases h
    exact ⟨rfl, fun k operand hk => by simp at hk⟩
  | operand :: rest, slot, encs, h => by
    simp only [resolveFrom] at h
    obtain ⟨enc, he, h⟩ := ok_of_bind h
    obtain ⟨encs', hr, h⟩ := ok_of_bind h
    cases h
    obtain ⟨hlen, hat⟩ := resolveFrom_ok rest hr
    refine ⟨congrArg (· + 1) hlen, fun k operand' hk => ?_⟩
    cases k with
    | zero =>
      cases hk
      exact ⟨enc, rfl, he⟩
    | succ k =>
      obtain ⟨enc', henc', hres⟩ := hat k operand' hk
      refine ⟨enc', henc', ?_⟩
      rw [← hres]
      congr 1
      omega

/-- The operands of an instruction are checked against its slots before they are resolved. -/
theorem resolveAll_ok {r : Resolver} {op : Op} {operands : List Operand} {encs : List Encoded}
    (h : r.resolveAll op operands = .ok encs) :
    op.checkShape (shapeOf operands) = .ok () ∧ r.resolveFrom op 0 operands = .ok encs := by
  obtain ⟨⟨⟩, hshape, hfrom⟩ := ok_of_bind h
  exact ⟨hshape, hfrom⟩

/-- An instruction gets one operand cell for each slot. -/
theorem length_of_resolveAll {r : Resolver} {op : Op} {operands : List Operand}
    {encs : List Encoded} (h : r.resolveAll op operands = .ok encs) :
    encs.length = op.slots.length := by
  obtain ⟨hshape, hfrom⟩ := resolveAll_ok h
  rw [(resolveFrom_ok operands hfrom).1, ← Op.length_of_checkShape hshape]
  exact (List.length_map ..).symm

/-- Every operand of an instruction is encoded for a slot that takes it. -/
theorem exists_encoded {r : Resolver} {op : Op} {operands : List Operand} {encs : List Encoded}
    (h : r.resolveAll op operands = .ok encs) {operand : Operand} (hmem : operand ∈ operands) :
    ∃ enc ∈ encs, ∃ wanted ∈ op.slots, wanted.accepts operand.kind = true ∧
      r.encode op wanted operand = .ok enc := by
  obtain ⟨_, hat⟩ := resolveFrom_ok operands (resolveAll_ok h).2
  obtain ⟨k, hk⟩ := List.mem_iff_getElem?.1 hmem
  obtain ⟨enc, henc, hres⟩ := hat k operand hk
  obtain ⟨wanted, hslot, haccepts, hencode⟩ := resolve_ok hres
  exact ⟨enc, List.mem_of_getElem? henc, wanted, List.mem_of_getElem? hslot, haccepts, hencode⟩

/-- Every operand cell of an instruction encodes an operand for a slot that takes it. -/
theorem exists_operand {r : Resolver} {op : Op} {operands : List Operand} {encs : List Encoded}
    (h : r.resolveAll op operands = .ok encs) {enc : Encoded} (hmem : enc ∈ encs) :
    ∃ operand ∈ operands, ∃ wanted ∈ op.slots, wanted.accepts operand.kind = true ∧
      r.encode op wanted operand = .ok enc := by
  obtain ⟨hlen, hat⟩ := resolveFrom_ok operands (resolveAll_ok h).2
  obtain ⟨k, hk, rfl⟩ := List.mem_iff_getElem.1 hmem
  have hk' : k < operands.length := hlen ▸ hk
  obtain ⟨enc, henc, hres⟩ := hat k operands[k] (List.getElem?_eq_getElem hk')
  rw [List.getElem?_eq_getElem hk] at henc
  cases henc
  obtain ⟨wanted, hslot, haccepts, hencode⟩ := resolve_ok hres
  exact ⟨operands[k], List.getElem_mem hk', wanted, List.mem_of_getElem? hslot, haccepts, hencode⟩

/-- A label among the operand cells stands in a label slot, and carries the rule of the
instruction. -/
theorem label_of_resolveAll {r : Resolver} {op : Op} {operands : List Operand}
    {encs : List Encoded} (h : r.resolveAll op operands = .ok encs) {name : String}
    {rule : PatchRule} (hmem : Encoded.label name rule ∈ encs) :
    Kind.label ∈ op.slots ∧ rule = op.patch := by
  obtain ⟨operand, _, wanted, hslot, haccepts, hencode⟩ := exists_operand h hmem
  obtain ⟨rfl, hrule⟩ := encode_eq_label hencode
  exact ⟨Kind.eq_label_of_accepts haccepts ▸ hslot, hrule⟩

/-- An instruction with a label operand has no other operand. -/
theorem eq_singleton_of_label {r : Resolver} {op : Op} {operands : List Operand}
    {encs : List Encoded} (h : r.resolveAll op operands = .ok encs) {name : String}
    (hmem : Operand.label name ∈ operands) :
    Kind.label ∈ op.slots ∧ encs = [.label name op.patch] := by
  obtain ⟨enc, henc, wanted, hslot, haccepts, hencode⟩ := exists_encoded h hmem
  have hlabel : Kind.label ∈ op.slots := Kind.eq_label_of_accepts haccepts ▸ hslot
  have hone : encs.length = 1 := by
    rw [length_of_resolveAll h, Op.slots_of_label hlabel]
    rfl
  obtain ⟨only, rfl⟩ := List.length_eq_one_iff.1 hone
  rw [encode_label_ok hencode] at henc
  exact ⟨hlabel, by rw [List.mem_singleton.1 henc]⟩

end Resolver

end CellMachine
