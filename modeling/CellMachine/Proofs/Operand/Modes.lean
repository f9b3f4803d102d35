import CellMachine.Operand.Resolve

/-!
# Operands in the two modes

A static and a dynamic emission resolve operands in the same way, but for two things: a generic
mnemonic stands for a variant in a static emission alone, and the contents of a variable are known
to a static emission alone. Without these the two need not even share a symbol table; it is enough
that their tables agree about the storage and the location of every name.

* `Concur` — two results are the same value, or failures of the same kinds.
* `SameSymbols` — two tables give every name the same storage and location, or know it neither.
* `Resolver.chooseOp_of_not_generic`, `Resolver.resolveAll_concur` — **the two modes choose the same
  instruction and resolve its operands to the same cells**, or fail with the same kinds.
-/

namespace CellMachine

/-- Two results are the same value, or both are failures, of the same kinds. -/
def Concur {α : Type} (x y : Except Failure α) : Prop :=
  x.mapError Failure.kinds = y.mapError Failure.kinds

namespace Concur

variable {α β : Type}

/-- A result concurs with itself. -/
theorem refl (x : Except Failure α) : Concur x x := rfl

/-- Failures concur if their kinds are the same. -/
theorem error {f g : Failure} (h : f.kinds = g.kinds) :
    Concur (.error f : Except Failure α) (.error g) := congrArg Except.error h

/-- What concurs is twice the same value, or twice a failure. -/
theorem cases {x y : Except Failure α} (h : Concur x y) :
    (∃ a, x = .ok a ∧ y = .ok a) ∨
      ∃ f g, x = .error f ∧ y = .error g ∧ f.kinds = g.kinds := by
  unfold Concur at h
  cases x with
  | ok a =>
    cases y with
    | ok b => exact .inl ⟨a, rfl, congrArg Except.ok (Except.ok.inj h).symm⟩
    | error g => cases h
  | error f =>
    cases y with
    | ok b => cases h
    | error g => exact .inr ⟨f, g, rfl, rfl, Except.error.inj h⟩

/-- Sequences concur if their parts do. -/
theorem bind {x y : Except Failure α} {f g : α → Except Failure β} (h : Concur x y)
    (hrest : ∀ a, Concur (f a) (g a)) : Concur (x >>= f) (y >>= g) := by
  obtain ⟨a, rfl, rfl⟩ | ⟨f, g, rfl, rfl, hkinds⟩ := h.cases
  · exact hrest a
  · exact error hkinds

/-- A report that adds no kind of its own keeps results concurrent. -/
theorem mapError {x y : Except Failure α} (h : Concur x y) {report : Failure → Failure}
    (hreport : ∀ failure, (report failure).kinds = failure.kinds) :
    Concur (x.mapError report) (y.mapError report) := by
  obtain ⟨a, rfl, rfl⟩ | ⟨f, g, rfl, rfl, hkinds⟩ := h.cases
  · exact refl _
  · refine error ?_
    rw [hreport, hreport, hkinds]

end Concur

/-- Two symbol tables give every name the same storage and location, or have no symbol for it. No
table at all counts as a table without symbols. -/
def SameSymbols (symbols? symbols'? : Option SymbolTable) : Prop :=
  ∀ name, (symbols?.bind fun table => table name).map (fun s => (s.storage, s.location)) =
    (symbols'?.bind fun table => table name).map fun s => (s.storage, s.location)

namespace Resolver

/-- A name that has a symbol is found; for any other the failure is of one kind. -/
theorem lookup_cases (r : Resolver) (name : String) :
    (∃ symbol, (r.symbols?.bind fun table => table name) = some symbol ∧
      r.lookup name = .ok symbol) ∨
    ∃ failure, (r.symbols?.bind fun table => table name) = none ∧
      r.lookup name = .error failure ∧ failure.kinds = [.unknownSymbol] := by
  unfold lookup
  cases r.symbols? with
  | none => exact .inr ⟨.noSymbolTable name, rfl, rfl, rfl⟩
  | some table =>
    rw [Option.bind_some]
    cases h : table name with
    | none => exact .inr ⟨.unknownSymbol name, rfl, by simp only [h], rfl⟩
    | some symbol => exact .inl ⟨symbol, rfl, by simp only [h]⟩

section SameSymbols

variable {r r' : Resolver} (hsame : SameSymbols r.symbols? r'.symbols?)
include hsame

/-- The location of a variable does not depend on the mode. -/
theorem encode_named_concur (op : Op) (slot : Kind) (name : String) :
    Concur (r.encode op slot (.location (.named name)))
      (r'.encode op slot (.location (.named name))) := by
  have hname := hsame name
  simp only [encode]
  rcases r.lookup_cases name with ⟨symbol, hsymbol, hlook⟩ | ⟨failure, hsymbol, hlook, hkind⟩
  · rcases r'.lookup_cases name with ⟨symbol', hsymbol', hlook'⟩ | ⟨failure', hsymbol', _⟩
    · rw [hsymbol, hsymbol'] at hname
      obtain ⟨hstorage, hlocation⟩ := Prod.mk.inj (Option.some.inj hname)
      rw [hlook, hlook']
      show Concur (if symbol.storage = _ then _ else _) (if symbol'.storage = _ then _ else _)
      rw [← hstorage, ← hlocation]
      split
      · exact .refl _
      · exact .error rfl
    · rw [hsymbol, hsymbol'] at hname
      cases hname
  · rcases r'.lookup_cases name with ⟨symbol', hsymbol', _⟩ | ⟨failure', _, hlook', hkind'⟩
    · rw [hsymbol, hsymbol'] at hname
      cases hname
    · rw [hlook, hlook']
      exact .error (hkind.trans hkind'.symm)

/-- An operand that does not ask for contents does not depend on the mode. -/
theorem encode_concur (op : Op) (slot : Kind) {operand : Operand}
    (hplain : ∀ var, operand ≠ .contents var) :
    Concur (r.encode op slot operand) (r'.encode op slot operand) := by
  cases operand with
  | immediate value => exact .refl _
  | location var =>
    cases var with
    | raw addr => exact .refl _
    | named name => exact encode_named_concur hsame op slot name
  | contents var => exact absurd rfl (hplain var)
  | label name => exact .refl _

/-- Whether an operand fits its slot does not depend on the mode either. -/
theorem resolve_concur (op : Op) (slot : Int) {operand : Operand}
    (hplain : ∀ var, operand ≠ .contents var) :
    Concur (r.resolve op slot operand) (r'.resolve op slot operand) := by
  unfold resolve
  refine Concur.mapError ?_ fun _ => rfl
  split
  · exact .refl _
  · next wanted _ =>
    split
    · exact encode_concur hsame op wanted hplain
    · exact .refl _

/-- Operands are resolved one after the other, up to the same failure. -/
theorem resolveFrom_concur (op : Op) {operands : List Operand}
    (hplain : ∀ var, Operand.contents var ∉ operands) (slot : Nat) :
    Concur (r.resolveFrom op slot operands) (r'.resolveFrom op slot operands) := by
  induction operands generalizing slot with
  | nil => exact .refl _
  | cons operand rest ih =>
    have hhead : ∀ var, operand ≠ .contents var := by
      rintro var rfl
      exact hplain var List.mem_cons_self
    have hrest : ∀ var, Operand.contents var ∉ rest :=
      fun var hmem => hplain var (List.mem_cons_of_mem _ hmem)
    exact .bind (resolve_concur hsame op slot hhead) fun _ =>
      .bind (ih hrest (slot + 1)) fun _ => .refl _

/-- **Operands that ask for no contents are resolved to the same cells**, whatever the modes. -/
theorem resolveAll_concur (op : Op) {operands : List Operand}
    (hplain : ∀ var, Operand.contents var ∉ operands) :
    Concur (r.resolveAll op operands) (r'.resolveAll op operands) :=
  .bind (.refl _) fun _ => resolveFrom_concur hsame op hplain 0

end SameSymbols

/-- **A mnemonic that is not generic stands for the same instruction**, whatever the resolvers. -/
theorem chooseOp_of_not_generic (r : Resolver) {mnemonic : String}
    (h : Generic.ofMnemonic? mnemonic = none) (operands : List Operand) :
    r.chooseOp mnemonic operands = Op.lookup mnemonic (shapeOf operands) := by
  unfold chooseOp
  rw [h]
  simp

end Resolver

end CellMachine
