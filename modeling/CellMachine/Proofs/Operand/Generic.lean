import CellMachine.Proofs.Operand.Modes
import CellMachine.Proofs.Operand.Resolve

/-!
# Generic mnemonics and their variables

A generic mnemonic of a static emission takes one operand, which names a variable, and stands for
the variant of the storage class of that variable. The instruction then has one operand cell.

* `Place` — where a variable lives: at a fixed address, or at an offset from the frame pointer.
* `Resolver.place?` — the place of a variable, as the symbols at hand give it.
* `Generic.Encodes` — the instruction and the operand cell for an access to a variable: the variant
  of its place and the cell of its place; or, for the address of a global variable whose contents
  were asked for, a literal and those contents.
* `Resolver.encodes_of_chooseOp` — there is no third way to encode a generic mnemonic.
-/

namespace CellMachine

/-- Where a variable lives. -/
inductive Place
  /-- At a fixed address. -/
  | fixed (a : Addr)
  /-- At an offset from the frame pointer. -/
  | offset (o : Cell)
  deriving DecidableEq, Repr

namespace Place

/-- The address of a place, for a frame pointer. -/
def addr (fp : Addr) : Place → Addr
  | .fixed a => a
  | .offset o => fp + o

/-- The cell by which an instruction gives a place. -/
def cell : Place → Cell
  | .fixed a => a
  | .offset o => o

end Place

/-- The variable that an operand names, by its location or by its contents. -/
def Operand.var? : Operand → Option SymbolRef
  | .location var | .contents var => some var
  | .immediate _ | .label _ => none

/-- Where the variable of a symbol lives, if it has a storage class that instructions serve. -/
def Symbol.place? (s : Symbol) : Option Place :=
  match s.storage with
  | .global => some (.fixed s.location)
  | .frame => some (.offset s.location)
  | .other _ => none

namespace Resolver

/-- The symbol of a name, if there is a table that has one. -/
def symbol? (r : Resolver) (name : String) : Option Symbol :=
  r.symbols?.bind fun table => table name

/-- Where a variable lives. A raw location is a fixed address. -/
def place? (r : Resolver) : SymbolRef → Option Place
  | .raw a => some (.fixed a)
  | .named name => (r.symbol? name).bind Symbol.place?

/-- A name that was looked up has a symbol. -/
theorem symbol?_of_lookup {r : Resolver} {name : String} {symbol : Symbol}
    (h : r.lookup name = .ok symbol) : r.symbol? name = some symbol := by
  rcases r.lookup_cases name with ⟨symbol', hsymbol, hlookup⟩ | ⟨failure, -, hlookup, -⟩
  · rw [hlookup] at h
    cases h
    exact hsymbol
  · rw [hlookup] at h
    cases h

end Resolver

namespace Generic

/-- The variant of an access for a place. -/
def variant (g : Generic) : Place → Op
  | .fixed _ => g.global
  | .offset _ => g.frame

/-- The variant for the storage class of a symbol is the one for its place. -/
theorem place?_of_select {g : Generic} {symbol : Symbol} {op : Op}
    (h : g.select? symbol.storage = some op) :
    ∃ place, symbol.place? = some place ∧ op = g.variant place ∧
      place.cell = symbol.location := by
  cases hstorage : symbol.storage with
  | global =>
    rw [hstorage] at h
    cases h
    exact ⟨.fixed symbol.location, by rw [Symbol.place?, hstorage], rfl, rfl⟩
  | frame =>
    rw [hstorage] at h
    cases h
    exact ⟨.offset symbol.location, by rw [Symbol.place?, hstorage], rfl, rfl⟩
  | other code =>
    rw [hstorage] at h
    cases h

/-- A variant has one slot. -/
theorem length_slots_of_select {g : Generic} {storage : StorageClass} {op : Op}
    (h : g.select? storage = some op) : op.slots.length = 1 := by
  cases storage with
  | global =>
    cases h
    cases g <;> rfl
  | frame =>
    cases h
    cases g <;> rfl
  | other code => cases h

/-- The slot of a variant takes a location; the one variant whose slot takes a literal sets a
register to the address of a global variable. -/
theorem literal_of_select {g : Generic} {storage : StorageClass} {op : Op}
    (h : g.select? storage = some op) (hslot : op.slots[0]? = some .immediate) :
    g = .addrP ∧ storage = .global ∧ op = .constP := by
  cases storage with
  | global =>
    cases h
    cases g with
    | addrP => exact ⟨rfl, rfl, rfl⟩
    | dec | inc | loadP | loadS | storP | storS => cases hslot
  | frame =>
    cases h
    cases g <;> cases hslot
  | other code => cases h

/-- The instruction and the operand cell for an access to the variable of an operand. -/
inductive Encodes (r : Resolver) (g : Generic) : Operand → Op → Cell → Prop
  /-- A location is encoded by the variant and the cell of the place. -/
  | location {var : SymbolRef} {place : Place} (hplace : r.place? var = some place) :
    Encodes r g (.location var) (g.variant place) place.cell
  /-- Contents fill the literal that the address of a global variable is. -/
  | contents {name : String} {symbol : Symbol} {v : Cell} (haddress : g = .addrP)
    (hsymbol : r.symbol? name = some symbol) (hstorage : symbol.storage = .global)
    (hcontents : symbol.contents? = some v) :
    Encodes r g (.contents (.named name)) .constP v

end Generic

namespace Resolver

variable {r : Resolver} {mnemonic : String} {g : Generic} {operands : List Operand} {op : Op}

/-- The variant that was selected is that of the storage class. -/
theorem select_of_selectVariant {storage : StorageClass}
    (hg : Generic.ofMnemonic? mnemonic = some g) (h : selectVariant mnemonic storage = .ok op) :
    g.select? storage = some op := by
  unfold selectVariant at h
  rw [hg] at h
  dsimp only at h
  split at h
  · cases h
  · next hselect =>
    cases h
    exact hselect

/-- A generic mnemonic stands for the variant of the storage class of its variable. -/
theorem select_of_chooseOp (hstatic : r.mode = .static)
    (hg : Generic.ofMnemonic? mnemonic = some g) (h : r.chooseOp mnemonic operands = .ok op) :
    ∃ storage, r.classify operands = .ok storage ∧ g.select? storage = some op := by
  unfold chooseOp at h
  rw [if_pos ⟨hstatic, by rw [hg]; rfl⟩] at h
  obtain ⟨storage, hclass, h⟩ := ok_of_bind h
  obtain ⟨op', hvariant, h⟩ := ok_of_bind h
  obtain ⟨checked, -, h⟩ := ok_of_bind h
  cases h
  refine ⟨storage, ?_, select_of_selectVariant hg hvariant⟩
  cases hresult : r.classify operands with
  | ok storage' =>
    rw [hresult] at hclass
    exact hclass
  | error failure =>
    rw [hresult] at hclass
    cases hclass

/-- A location that was resolved for a variant is encoded by its place. -/
theorem encodes_of_location {var : SymbolRef} {slot : Kind} {enc : Encoded}
    {storage : StorageClass} (hclass : r.classify [.location var] = .ok storage)
    (hselect : g.select? storage = some op) (h : r.encode op slot (.location var) = .ok enc) :
    ∃ v, enc = .cell v ∧ g.Encodes r (.location var) op v := by
  cases var with
  | raw a =>
    cases hclass
    cases hselect
    cases h
    exact ⟨a, rfl, .location (rfl : r.place? (.raw a) = some (.fixed a))⟩
  | named name =>
    simp only [classify] at hclass
    obtain ⟨symbol, hlookup, h⟩ := ok_of_bind h
    rw [hlookup] at hclass
    cases hclass
    dsimp only at h
    split at h
    · cases h
      obtain ⟨place, hplace, rfl, hcell⟩ := Generic.place?_of_select hselect
      have hnamed : r.place? (.named name) = some place := by
        rw [place?, symbol?_of_lookup hlookup]
        exact hplace
      exact ⟨symbol.location, rfl, hcell ▸ .location hnamed⟩
    · cases h

/-- Contents that were resolved for a variant are those of a global variable, and stand for its
address. -/
theorem encodes_of_contents {var : SymbolRef} {enc : Encoded} {storage : StorageClass}
    (hclass : r.classify [.contents var] = .ok storage) (hselect : g.select? storage = some op)
    (h : r.resolve op (0 : Nat) (.contents var) = .ok enc) :
    ∃ v, enc = .cell v ∧ g.Encodes r (.contents var) op v := by
  obtain ⟨slot, hslot, haccepts, h⟩ := resolve_ok h
  -- only a literal slot takes contents
  have hliteral : slot = .immediate := by
    revert haccepts
    cases slot <;> simp [Kind.accepts, Operand.kind]
  rw [hliteral] at hslot
  obtain ⟨haddress, rfl, rfl⟩ := Generic.literal_of_select hselect hslot
  simp only [encode] at h
  split at h
  · cases var with
    | raw a => cases h
    | named name =>
      simp only [classify] at hclass
      obtain ⟨symbol, hlookup, h⟩ := ok_of_bind h
      rw [hlookup] at hclass
      split at h
      · cases h
      · next v hcontents =>
        cases h
        have hstorage := Except.ok.inj hclass
        exact ⟨v, rfl, .contents haddress (symbol?_of_lookup hlookup) hstorage hcontents⟩
  · cases h

/-- An operand of a variant that was resolved is encoded as an access to its variable. -/
theorem encodes_of_resolve {operand : Operand} {enc : Encoded} {storage : StorageClass}
    (hclass : r.classify [operand] = .ok storage) (hselect : g.select? storage = some op)
    (h : r.resolve op (0 : Nat) operand = .ok enc) :
    ∃ v, enc = .cell v ∧ g.Encodes r operand op v := by
  cases operand with
  | immediate value => cases hclass
  | label name => cases hclass
  | location var =>
    obtain ⟨slot, -, -, hencode⟩ := resolve_ok h
    exact encodes_of_location hclass hselect hencode
  | contents var => exact encodes_of_contents hclass hselect h

/-- **A generic mnemonic has one operand, and is encoded as an access to its variable.** -/
theorem encodes_of_chooseOp (hstatic : r.mode = .static)
    (hg : Generic.ofMnemonic? mnemonic = some g) (hop : r.chooseOp mnemonic operands = .ok op)
    {encs : List Encoded} (h : r.resolveAll op operands = .ok encs) :
    ∃ operand v, operands = [operand] ∧ encs = [.cell v] ∧ g.Encodes r operand op v := by
  obtain ⟨storage, hclass, hselect⟩ := select_of_chooseOp hstatic hg hop
  obtain ⟨hshape, hfrom⟩ := resolveAll_ok h
  have hone : operands.length = 1 := by
    have hlength := Op.length_of_checkShape hshape
    rw [Generic.length_slots_of_select hselect] at hlength
    exact (List.length_map _).symm.trans hlength
  obtain ⟨operand, rfl⟩ := List.length_eq_one_iff.mp hone
  obtain ⟨hlength, hat⟩ := resolveFrom_ok _ hfrom
  obtain ⟨enc, henc, hresolve⟩ := hat 0 operand rfl
  obtain ⟨enc', rfl⟩ := List.length_eq_one_iff.mp (hlength.trans hone)
  cases henc
  obtain ⟨v, rfl, hencodes⟩ := encodes_of_resolve hclass hselect hresolve
  exact ⟨operand, v, rfl, rfl, hencodes⟩

end Resolver

namespace Generic.Encodes

variable {r : Resolver} {g : Generic} {operand : Operand} {op : Op} {v : Cell}

/-- An access takes two cells. -/
theorem width (h : g.Encodes r operand op v) : op.width = 2 := by
  cases h with
  | @location _ place _ => cases place <;> cases g <;> rfl
  | contents => rfl

end Generic.Encodes

end CellMachine
