import CellMachine.Proofs.Machine.Upkeep
import CellMachine.Proofs.Memory.LeaseCalls
import CellMachine.Proofs.Memory.Receiving

/-!
# The memories that there can be

A memory starts out without regions. From then on it is changed by calls to the memory itself, by
calls to its leases and by machines that run in it. `Memory.Reachable` holds of every memory that
comes about in this way, in any order of calls and whether the calls succeed or fail.

All these calls come down to five kinds of change. What survives each of them holds of every
reachable memory.

* `MemoryCall` — what can be done to a memory itself.
* `Memory.Change`, `Memory.Path` — the five kinds of change, and many of them one after the other,
  with a history of the writes and sealings that were made through leases.
* `Memory.Reachable` — what can come about; `Memory.Reachable.path` — it does so by changes.
* `Memory.Reachable.ordered` — **the regions always stand in order.**
* `Memory.Reachable.indexed`, `Memory.Reachable.listed` — **the tables of names always agree** with
  the regions and with one another.
-/

namespace CellMachine

open CellMachine.Action

/-- A call to a memory that may change it. -/
inductive MemoryCall
  | store (a : Addr) (v : Cell)
  | alloc (n : Int64)
  | defineGlobal (name : String) (init : Cell)
  | setGlobal (name : String) (v : Cell)
  | reserve (name : String) (capacity : Int64)
  | loadImage (order : BaseOrder) (img : Image)
  | leaseNamed (name : String)
  | leaseAt (base : Addr) (capacity : Int64)

/-- The memory after a call to it. -/
def MemoryCall.after : MemoryCall → Memory → Memory
  | .store a v => (Memory.store a v).after
  | .alloc n => (Memory.alloc n).after
  | .defineGlobal name init => (Memory.defineGlobal name init).after
  | .setGlobal name v => (Memory.setGlobal name v).after
  | .reserve name capacity => (Memory.reserve name capacity).after
  | .loadImage order img => (@Memory.loadImage order img).after
  | .leaseNamed name => (Memory.leaseNamed name).after
  | .leaseAt base capacity => (Memory.leaseAt base capacity).after

/-- The memories that can come about. -/
inductive Memory.Reachable : Memory → Prop
  /-- A new memory. -/
  | new {size stack : Int} {m : Memory} : Memory.new size stack = .ok m → Reachable m
  /-- A memory after a call to it. -/
  | call {m : Memory} (c : MemoryCall) : Reachable m → Reachable (c.after m)
  /-- A memory after a call to one of its leases. -/
  | lease {m : Memory} (id : Nat) (c : LeaseCall) :
    Reachable m → Reachable (c.after { lease := id, memory := m }).memory
  /-- A memory after a run of a machine. -/
  | run {m : Memory} (processor : Processor) (target? : Option Addr) (args : List Cell) :
    Reachable m → Reachable ((Machine.invoke target? args).after { processor, memory := m }).memory

/-! ### Changes -/

/-- The writes and sealings that were made through leases, each with the number of its region. -/
abbrev History := List (Nat × RegionEvent)

namespace Memory

/-- What happened through a lease happened to its region. -/
def tagged (m : Memory) (id : Nat) (events : List RegionEvent) : History :=
  match m.leases[id]? with
  | some lease => events.map fun event => (lease.span, event)
  | none => []

/-- Where nothing happened there is nothing to tell. -/
@[simp] theorem tagged_nil (m : Memory) (id : Nat) : m.tagged id [] = [] := by
  unfold tagged
  cases m.leases[id]? <;> rfl

/-- What happened through a lease, told of its region. -/
theorem tagged_of_lease {m : Memory} {id : Nat} {l : Lease} (hl : m.leases[id]? = some l)
    (events : List RegionEvent) : m.tagged id events = events.map fun event => (l.span, event) := by
  unfold tagged
  rw [hl]

/-- The memory with a new lease on a region. -/
def granted (m : Memory) (s : Span) : Memory :=
  { m with leases := m.leases.push { span := s.id } }.updateSpan s.id fun t =>
    { t with lease? := some m.leases.size }

/-- Two memories of one size with the same regions and leases. Memory that is handed out stays
below the stack, and the globals stay listed. -/
structure SameTables (m m' : Memory) : Prop where
  spans : m'.spans = m.spans
  names : m'.names = m.names
  leases : m'.leases = m.leases
  limit : m'.limit = m.limit
  size : m'.cells.size = m.cells.size
  next : m.next ≤ m.limit → m'.next ≤ m.limit
  listed : m.Listed → m'.Listed

/-- The five kinds of change. -/
inductive Change : Memory → History → Memory → Prop
  /-- Cells are written, handed out or named. -/
  | data {m m' : Memory} : m.SameTables m' → Change m [] m'
  /-- A region takes its place in the order, and its name is put into the index. -/
  | register {m : Memory} {r : RoutineEntry} {low high : List Span} :
    m.spans.toList = low ++ high → (∀ s ∈ low, s.entry.Before r) →
    (∀ s ∈ high, r.Before s.entry) → m.Fresh r.name → Change m [] (m.registered r low high)
  /-- The length of a region or the number of its activations is noted. -/
  | mark {m : Memory} (id : Nat) {f : Span → Span} :
    (∀ s, ∃ length running, f s = { s with length, running }) → Change m [] (m.updateSpan id f)
  /-- A lease is opened on a region that has none. -/
  | grant {m : Memory} {s : Span} : s ∈ m.spans → s.lease? = none → Change m [] (m.granted s)
  /-- Something is done through a lease. -/
  | lease {m : Memory} (id : Nat) (c : LeaseCall) :
    Change m (m.tagged id (c.events { lease := id, memory := m }))
      (c.after { lease := id, memory := m }).memory

/-- A memory whose regions stand in order becomes another one by changes. -/
inductive Path (m₀ : Memory) : History → Memory → Prop
  | start : m₀.Ordered → Path m₀ [] m₀
  | step {history events : History} {m m' : Memory} :
    Path m₀ history m → Change m events m' → Path m₀ (history ++ events) m'

/-- A change of regions that moves none of them leaves all of them in their places. -/
theorem entries_updateSpan (m : Memory) (id : Nat) {f : Span → Span}
    (hf : ∀ s, (f s).entry = s.entry) : (m.updateSpan id f).entries = m.entries := by
  unfold entries updateSpan
  rw [Array.toList_map, List.map_map]
  refine List.map_congr_left fun s _ => ?_
  rw [Function.comp_apply]
  split
  · exact hf s
  · rfl

/-- A change of regions that moves none of them leaves them in order. -/
theorem Ordered.updateSpan {m : Memory} (hm : m.Ordered) (id : Nat) {f : Span → Span}
    (hf : ∀ s, (f s).entry = s.entry) : (m.updateSpan id f).Ordered := by
  unfold Ordered
  rwa [entries_updateSpan m id hf]

/-- A call to a lease moves no region. -/
theorem entries_lease (m : Memory) (id : Nat) (c : LeaseCall) :
    (c.after { lease := id, memory := m }).memory.entries = m.entries := by
  have heffect := c.effect { lease := id, memory := m }
  generalize c.after { lease := id, memory := m } = h,
    c.events { lease := id, memory := m } = events at heffect
  cases heffect with
  | nothing => rfl
  | wrote v hp hs hin => rfl
  | bound hp hs hbound => rfl
  | sealed length hp hdone => exact entries_updateSpan _ _ fun _ => rfl
  | poisoned hp hdone => exact entries_updateSpan _ _ fun _ => rfl
  | released hp hdone => exact entries_updateSpan _ _ fun _ => rfl

/-- Every change leaves the regions in order. -/
theorem Change.ordered {m m' : Memory} {events : History} (h : Change m events m')
    (hm : m.Ordered) : m'.Ordered := by
  cases h with
  | data hsame =>
    unfold Ordered entries
    rwa [hsame.spans]
  | register hs hlow hhigh hfresh => exact ordered_of_split hm hs hlow hhigh
  | mark id hf =>
    refine hm.updateSpan id fun s => ?_
    obtain ⟨length, running, heq⟩ := hf s
    rw [heq]
    rfl
  | @grant s hs hnone =>
    exact Ordered.updateSpan (m := { m with leases := m.leases.push { span := s.id } }) hm s.id
      fun _ => rfl
  | lease id c =>
    unfold Ordered
    rwa [entries_lease]

/-- A call to a lease keeps the tables of names, and the names and numbers of the regions. -/
theorem names_lease (m : Memory) (id : Nat) (c : LeaseCall) :
    (c.after { lease := id, memory := m }).memory.names = m.names ∧
      (c.after { lease := id, memory := m }).memory.tags = m.tags ∧
      (c.after { lease := id, memory := m }).memory.addresses = m.addresses ∧
      (c.after { lease := id, memory := m }).memory.order = m.order := by
  have heffect := c.effect { lease := id, memory := m }
  generalize c.after { lease := id, memory := m } = h,
    c.events { lease := id, memory := m } = events at heffect
  cases heffect with
  | nothing => exact ⟨rfl, rfl, rfl, rfl⟩
  | wrote v hp hs hin => exact ⟨rfl, rfl, rfl, rfl⟩
  | bound hp hs hbound => exact ⟨rfl, rfl, rfl, rfl⟩
  | sealed length hp hdone => exact ⟨rfl, tags_updateSpan _ _ fun _ => ⟨rfl, rfl⟩, rfl, rfl⟩
  | poisoned hp hdone => exact ⟨rfl, tags_updateSpan _ _ fun _ => ⟨rfl, rfl⟩, rfl, rfl⟩
  | released hp hdone => exact ⟨rfl, tags_updateSpan _ _ fun _ => ⟨rfl, rfl⟩, rfl, rfl⟩

/-- **Every change keeps the index of names exact.** -/
theorem Change.indexed {m m' : Memory} {events : History} (h : Change m events m')
    (hm : m.Indexed) : m'.Indexed := by
  cases h with
  | data hsame =>
    refine hm.of_tags hsame.names ?_
    unfold tags
    rw [hsame.spans]
  | register hs hlow hhigh hfresh => exact hm.registered hs hfresh
  | mark id hf =>
    refine hm.of_tags rfl (tags_updateSpan m id fun s => ?_)
    obtain ⟨length, running, heq⟩ := hf s
    rw [heq]
    exact ⟨rfl, rfl⟩
  | @grant s hs hnone => exact hm.of_tags rfl (tags_updateSpan _ s.id fun _ => ⟨rfl, rfl⟩)
  | lease id c =>
    obtain ⟨hnames, htags, -, -⟩ := names_lease m id c
    exact hm.of_tags hnames htags

/-- **Every change keeps the globals listed.** -/
theorem Change.listed {m m' : Memory} {events : History} (h : Change m events m')
    (hm : m.Listed) : m'.Listed := by
  cases h with
  | data hsame => exact hsame.listed hm
  | register hs hlow hhigh hfresh => exact hm.of_globals rfl rfl
  | mark id hf => exact hm.of_globals rfl rfl
  | grant hs hnone => exact hm.of_globals rfl rfl
  | lease id c =>
    obtain ⟨-, -, haddresses, horder⟩ := names_lease m id c
    exact hm.of_globals haddresses horder

/-- Along a path from a memory whose tables of names agree they always do. -/
theorem Path.tables {m₀ m : Memory} {history : History} (h : Path m₀ history m)
    (h₀ : m₀.Indexed ∧ m₀.Listed) : m.Indexed ∧ m.Listed := by
  induction h with
  | start _ => exact h₀
  | step _ hchange ih => exact ⟨hchange.indexed ih.1, hchange.listed ih.2⟩

/-- Along a path the regions stand in order. -/
theorem Path.ordered {m₀ m : Memory} {history : History} (h : Path m₀ history m) :
    m.Ordered := by
  induction h with
  | start h₀ => exact h₀
  | step _ hchange ih => exact hchange.ordered ih

/-- A change that is no event goes on with the same history. -/
theorem Path.quiet {m₀ m m' : Memory} {history : History} (h : Path m₀ history m)
    (hchange : Change m [] m') : Path m₀ history m' := by
  have hstep := h.step hchange
  rwa [List.append_nil] at hstep

/-- One path goes on where another one has ended. -/
theorem Path.trans {m₀ m m' : Memory} {history more : History} (h : Path m₀ history m)
    (h' : Path m more m') : Path m₀ (history ++ more) m' := by
  induction h' with
  | start _ => rwa [List.append_nil]
  | step _ hchange ih =>
    rw [← List.append_assoc]
    exact ih.step hchange

/-! ### Calls are changes -/

/-- Nothing happened. -/
theorem SameTables.refl (m : Memory) : m.SameTables m := ⟨rfl, rfl, rfl, rfl, rfl, id, id⟩

/-- Other cells, as many as before. -/
theorem SameTables.of_cells (m : Memory) {cells : Array Cell} (hsize : cells.size = m.cells.size) :
    m.SameTables { m with cells } :=
  ⟨rfl, rfl, rfl, rfl, hsize, id, fun h => h.of_globals rfl rfl⟩

section Calls

variable {m₀ : Memory} {history : History}

/-- An action that leaves the tables alone goes on with a path. -/
theorem preserves_of_sameTables {α : Type} {x : Action Memory α}
    (h : ∀ m : Memory, m.SameTables (x.after m)) : Preserves (Path m₀ history) x :=
  fun m hm => hm.quiet (.data (h m))

/-- Writing a cell leaves the tables alone. -/
theorem put_preserves (a : Addr) (v : Cell) : Preserves (Path m₀ history) (put a v) := by
  refine preserves_of_sameTables fun m => ?_
  by_cases h : m.inBounds a
  · simp only [after, put, h, if_true]
    exact .of_cells m Array.size_setIfInBounds
  · simp only [after, put, h]
    exact .refl m

/-- Storing a cell is writing it, unless it lies outside the memory. -/
theorem store_preserves (a : Addr) (v : Cell) : Preserves (Path m₀ history) (store a v) := by
  intro m hm
  by_cases h : m.inBounds a
  · have hstore : (store a v).after m = (put a v).after m := by simp [after, store, h]
    rw [hstore]
    exact put_preserves a v m hm
  · have hstore : (store a v).after m = m := by simp [after, store, h]
    rwa [hstore]

/-- Copying cells leaves the tables alone. -/
theorem copy_preserves (base : Addr) (cells : Array Cell) :
    Preserves (Path m₀ history) (copy base cells) := by
  refine preserves_of_sameTables fun m => ?_
  obtain ⟨cells', hcopy, hsize⟩ := exists_copy base cells m
  rw [hcopy]
  exact .of_cells m hsize

/-- Handing cells out leaves the tables alone. -/
theorem alloc_preserves (n : Int64) : Preserves (Path m₀ history) (alloc n) := by
  refine preserves_of_sameTables fun m => ?_
  by_cases h : n < 0 ∨ m.limit < m.next + n
  · simp only [after, alloc, if_pos h]
    exact .refl m
  · simp only [after, alloc, if_neg h]
    exact ⟨rfl, rfl, rfl, rfl, rfl, fun _ => Int64.not_lt.mp fun hlt => h (.inr hlt),
      fun h => h.of_globals rfl rfl⟩

/-- Defining a global is refused, or hands out a cell, and then the global is bound to the cell
unless the machine stops when the cell is written. -/
theorem defineGlobal_cases (name : String) (init : Cell) (m : Memory) :
    (defineGlobal name init).after m = m ∨
      m.globalAddr? name = none ∧ m.next + 1 ≤ m.limit ∧
        ∃ cells, cells.size = m.cells.size ∧
          ((defineGlobal name init).after m = { m with next := m.next + 1, cells } ∨
            (defineGlobal name init).after m =
              bindGlobal { m with next := m.next + 1, cells } name m.next) := by
  have hget : (EStateM.get : Action Memory Memory) m = .ok m m := rfl
  unfold defineGlobal
  rw [after_congr (bind_of_ok hget)]
  by_cases htaken : m.addresses.contains name
  · exact .inl (by rw [if_pos htaken]; rfl)
  rw [if_neg htaken]
  by_cases hroom : (1 : Int64) < 0 ∨ m.limit < m.next + 1
  · have halloc : alloc 1 m = .error (.noRoom (1 : Int64).toInt m.free) m := if_pos hroom
    exact .inl (after_of_error (bind_of_error halloc))
  have halloc : alloc 1 m = .ok m.next { m with next := m.next + 1 } := if_neg hroom
  rw [after_congr (bind_of_ok halloc)]
  refine .inr ⟨Option.not_isSome_iff_eq_none.mp htaken,
    Int64.not_lt.mp fun hlt => hroom (.inr hlt), ?_⟩
  by_cases hin : inBounds { m with next := m.next + 1 } m.next
  · have hput : put m.next init { m with next := m.next + 1 } = .ok () { m with
        next := m.next + 1
        cells := m.cells.setIfInBounds m.next.toInt.toNat init } := if_pos hin
    rw [after_congr (bind_of_ok hput)]
    exact ⟨_, Array.size_setIfInBounds, .inr rfl⟩
  · have hput : put m.next init { m with next := m.next + 1 } =
        .error .crash { m with next := m.next + 1 } := if_neg hin
    rw [after_of_error (bind_of_error hput)]
    exact ⟨m.cells, rfl, .inl rfl⟩

/-- Defining a global leaves the tables alone. -/
theorem defineGlobal_preserves (name : String) (init : Cell) :
    Preserves (Path m₀ history) (defineGlobal name init) := by
  refine preserves_of_sameTables fun m => ?_
  rcases defineGlobal_cases name init m with hsame | ⟨hnew, hroom, cells, hsize, hafter | hafter⟩
  · rw [hsame]
    exact .refl m
  · rw [hafter]
    exact ⟨rfl, rfl, rfl, rfl, hsize, fun _ => hroom, fun h => h.of_globals rfl rfl⟩
  · rw [hafter]
    refine ⟨rfl, rfl, rfl, rfl, hsize, fun _ => hroom, fun h => ?_⟩
    exact Listed.bindGlobal (m := { m with next := m.next + 1, cells }) (h.of_globals rfl rfl)
      hnew m.next

/-- Overwriting a global leaves the tables alone. -/
theorem setGlobal_preserves (name : String) (v : Cell) :
    Preserves (Path m₀ history) (setGlobal name v) := by
  intro m hm
  unfold after setGlobal
  cases m.globalAddr? name with
  | none => exact hm
  | some a => exact put_preserves a v m hm

/-- Filling a new region leaves the tables alone. -/
theorem fillStub_preserves (base : Addr) (capacity : Int64) :
    Preserves (Path m₀ history) (fillStub base capacity) :=
  preserves_fillStub (copy_preserves base) capacity

/-- A new region is put in its place in the order, or refused. -/
theorem register_preserves (name : String) (base : Addr) (capacity : Int64) :
    Preserves (Path m₀ history) (register name base capacity) := by
  intro m hm
  by_cases hname : m.Fresh name
  · by_cases h : m.Blocked { name, base, capacity }
    · obtain ⟨other, hreg⟩ := register_of_blocked hm.ordered hname h
      rwa [after_of_error hreg]
    · obtain ⟨low, high, hs, hlow, hhigh, hreg⟩ := register_of_clear hm.ordered hname h
      rw [after_of_ok hreg]
      exact hm.quiet (.register hs hlow hhigh hname)
  · rwa [after_of_error (register_of_taken hname base capacity)]

/-- Noting the length of a region is a change. -/
theorem Path.length {m : Memory} (hm : Path m₀ history m) (id : Nat) (length : Int) :
    Path m₀ history (m.updateSpan id fun s => { s with length }) :=
  hm.quiet (.mark id fun s => ⟨length, s.running, rfl⟩)

/-- Reserving a region registers it. -/
theorem reserve_preserves (name : String) (capacity : Int64) :
    Preserves (Path m₀ history) (reserve name capacity) := by
  refine .refuse (.bind .get fun _ => .refuse (.bind (alloc_preserves capacity) fun base =>
    .bind (fillStub_preserves base capacity) fun _ =>
      .bind (register_preserves name base capacity) fun span =>
        .bind (.modify ?_) fun _ => .pure _))
  intro m hm
  exact hm.length span.id _

/-- Registering the routines of an image registers one after the other. -/
theorem registerRoutines_preserves (routines : List RoutineEntry) :
    Preserves (Path m₀ history) (registerRoutines routines) := by
  induction routines with
  | nil => exact .pure ()
  | cons r rest ih =>
    refine .bind (register_preserves r.name r.base r.capacity) fun span =>
      .bind (.modify ?_) fun _ => ih
    intro m hm
    exact hm.length span.id _

/-- The stack begins at the same cell along a path. -/
theorem Path.limit {m : Memory} (hm : Path m₀ history m) : m.limit = m₀.limit := by
  induction hm with
  | start _ => rfl
  | @step _ _ m m' _ hchange ih =>
    refine Eq.trans ?_ ih
    cases hchange with
    | data hsame => exact hsame.limit
    | register _ _ _ _ => rfl
    | mark id hf => rfl
    | grant hs hnone => rfl
    | lease id c =>
      have heffect := c.effect { lease := id, memory := m }
      generalize c.after { lease := id, memory := m } = h,
        c.events { lease := id, memory := m } = events at heffect
      cases heffect <;> rfl

/-- Receiving an image that is let in leaves the tables alone. -/
theorem Admits.sameTables [BaseOrder] {m : Memory} {img : Image} (h : m.Admits img) :
    m.SameTables (m.receive img) := by
  have hlisted := h.listed
  obtain ⟨cells, addresses, hreceive, hsize⟩ := exists_receive m img
  rw [hreceive] at hlisted ⊢
  exact ⟨rfl, rfl, rfl, rfl, hsize, fun _ => h.free.2, hlisted⟩

/-- Loading an image registers its routines. -/
theorem loadImage_preserves [BaseOrder] (img : Image) :
    Preserves (Path m₀ history) (loadImage img) := by
  intro m hm
  by_cases hadmits : m.Admits img
  · rw [after_congr (loadImage_of_admits hadmits)]
    exact registerRoutines_preserves img.routines _ (hm.quiet (.data hadmits.sameTables))
  · obtain ⟨failure, hload⟩ := loadImage_of_not_admits hadmits
    rwa [after_of_error hload]

/-- A lease is opened on a region that is neither leased nor executed. -/
theorem openLease_eq (m : Memory) (s : Span) :
    openLease s m =
      if s.lease?.isSome then .error (.regionBusy (.leased s.label)) m
      else if 0 < s.running then .error (.regionBusy (.executing s.label)) m
      else .ok m.leases.size (m.granted s) := rfl

/-- Opening a lease on a region of the memory is a change. -/
theorem Path.openLease {m : Memory} (hm : Path m₀ history m) {s : Span} (hs : s ∈ m.spans) :
    Path m₀ history ((Memory.openLease s).after m) := by
  unfold after
  rw [openLease_eq]
  cases hlease : s.lease? with
  | some id => exact hm
  | none =>
    by_cases hrunning : 0 < s.running
    · simp only [Option.isSome_none, Bool.false_eq_true, if_false, if_pos hrunning]
      exact hm
    · simp only [Option.isSome_none, Bool.false_eq_true, if_false, if_neg hrunning]
      exact hm.quiet (.grant hs hlease)

/-- The region of a name is a region of the memory. -/
theorem mem_of_spanNamed? {m : Memory} {name : String} {s : Span}
    (h : m.spanNamed? name = some s) : s ∈ m.spans := by
  obtain ⟨id, -, hid⟩ := Option.bind_eq_some_iff.mp h
  exact Array.mem_of_find?_eq_some hid

/-- The region of an address is one of the memory. -/
theorem mem_of_find? {m : Memory} {a : Addr} {s : Span} (h : m.find? a = some s) :
    s ∈ m.spans := by
  unfold find? at h
  split at h
  · cases h
  · split at h
    · next i t ht =>
      split at h
      · cases h
        exact Array.mem_of_getElem? ht
      · cases h
    · cases h

/-- Opening a lease on the region of a name opens one on a region of the memory. -/
theorem leaseNamed_preserves (name : String) :
    Preserves (Path m₀ history) (leaseNamed name) := by
  intro m hm
  have hget : (EStateM.get : Action Memory Memory) m = .ok m m := rfl
  unfold after leaseNamed
  rw [bind_of_ok hget]
  cases hs : m.spanNamed? name with
  | none => exact hm
  | some s => exact hm.openLease (mem_of_spanNamed? hs)

/-- A lease on a range is refused unless memory there is handed out; then it is one on the region of
the range, which may have to be registered. -/
theorem leaseAt_eq (base : Addr) (capacity : Int64) (m : Memory) :
    leaseAt base capacity m =
      if capacity ≤ 0 ∨ base < 0 ∨ m.next < base + capacity then
        .error (.outOfBounds (.unallocated base capacity.toInt)) m
      else match m.find? base with
        | none => (register "" base capacity >>= Memory.openLease) m
        | some s =>
          if s.base ≠ base ∨ s.capacity ≠ capacity then .error (.regionOverlap s.label) m
          else Memory.openLease s m := by
  have hget : (EStateM.get : Action Memory Memory) m = .ok m m := rfl
  unfold leaseAt
  rw [bind_of_ok hget]
  by_cases hrange : capacity ≤ 0 ∨ base < 0 ∨ m.next < base + capacity
  · simp only [if_pos hrange]
    exact bind_of_error rfl
  simp only [if_neg hrange]
  cases m.find? base with
  | none => rfl
  | some s =>
    by_cases hplace : s.base ≠ base ∨ s.capacity ≠ capacity
    · simp only [if_pos hplace]
      exact bind_of_error rfl
    · simp only [if_neg hplace]

/-- Opening a lease on a range registers the range if it is not a region yet. -/
theorem leaseAt_preserves (base : Addr) (capacity : Int64) :
    Preserves (Path m₀ history) (leaseAt base capacity) := by
  intro m hm
  unfold after
  rw [leaseAt_eq]
  by_cases hrange : capacity ≤ 0 ∨ base < 0 ∨ m.next < base + capacity
  · simp only [if_pos hrange]
    exact hm
  simp only [if_neg hrange]
  cases hfind : m.find? base with
  | some s =>
    by_cases hplace : s.base ≠ base ∨ s.capacity ≠ capacity
    · simp only [if_pos hplace]
      exact hm
    · simp only [if_neg hplace]
      exact hm.openLease (mem_of_find? hfind)
  | none =>
    simp only
    have hreg : Path m₀ history ((register "" base capacity).after m) :=
      register_preserves "" base capacity m hm
    by_cases h : m.Blocked { name := "", base, capacity }
    · obtain ⟨other, hfail⟩ := register_of_blocked hm.ordered m.fresh_empty h
      rw [bind_of_error hfail]
      exact hm
    · obtain ⟨low, high, hs, hlow, hhigh, hok⟩ := register_of_clear hm.ordered m.fresh_empty h
      rw [after_of_ok hok] at hreg
      rw [bind_of_ok hok]
      exact hreg.openLease (mem_registered m _ low high)

/-- **Every call to a memory is made of changes**, none of which is an event. -/
theorem Path.call {m : Memory} (hm : Path m₀ history m) (c : MemoryCall) :
    Path m₀ history (c.after m) := by
  cases c with
  | store a v => exact store_preserves a v m hm
  | alloc n => exact alloc_preserves n m hm
  | defineGlobal name init => exact defineGlobal_preserves name init m hm
  | setGlobal name v => exact setGlobal_preserves name v m hm
  | reserve name capacity => exact reserve_preserves name capacity m hm
  | loadImage order img => exact loadImage_preserves img m hm
  | leaseNamed name => exact leaseNamed_preserves name m hm
  | leaseAt base capacity => exact leaseAt_preserves base capacity m hm

/-! ### Machines -/

/-- Entering a region is noted there. -/
theorem enter_preserves (a : Addr) : Preserves (Path m₀ history) (enter a) := by
  intro m hm
  unfold after enter
  by_cases hbounds : !m.inBounds a
  · simp only [if_pos hbounds]
    exact hm
  · simp only [if_neg hbounds]
    cases m.find? a with
    | none => exact hm
    | some s =>
      by_cases hleased : s.lease?.isSome
      · simp only [if_pos hleased]
        exact hm
      · by_cases hpoisoned : s.poisoned
        · simp only [if_neg hleased, if_pos hpoisoned]
          exact hm
        · simp only [if_neg hleased, if_neg hpoisoned]
          exact hm.quiet (.mark s.id fun t => ⟨t.length, t.running + 1, rfl⟩)

/-- Leaving a region is noted there. -/
theorem Path.leave {m : Memory} (hm : Path m₀ history m) (id? : Option Nat) :
    Path m₀ history (m.leave id?) := by
  cases id? with
  | none => exact hm
  | some id => exact hm.quiet (.mark id fun s => ⟨s.length, s.running - 1, rfl⟩)

/-- What a machine does to its memory is made of changes. -/
theorem upheld_path : Upheld (Path m₀ history) where
  store := store_preserves
  enter := enter_preserves
  leave id? _ hm := hm.leave id?

/-- **A run of a machine is made of changes**, none of which is an event. -/
theorem Path.run {m : Memory} (hm : Path m₀ history m) (processor : Processor)
    (target? : Option Addr) (args : List Cell) :
    Path m₀ history ((Machine.invoke target? args).after { processor, memory := m }).memory :=
  Machine.invoke_preserves upheld_path target? args { processor, memory := m } hm

end Calls

/-! ### Reachable memories -/

/-- A new memory has cells and a stack, and nothing else. -/
theorem new_eq {size stack : Int} {m : Memory} (h : Memory.new size stack = .ok m) :
    m = { cells := m.cells, limit := m.limit } := by
  unfold Memory.new at h
  simp only at h
  generalize (if stack ≤ 0 then defaultStackCells else stack) = top at h
  by_cases hsize : size ≤ top
  · rw [if_pos hsize] at h
    cases h
  · rw [if_neg hsize] at h
    cases hcells : zeroCells size with
    | error failure =>
      rw [hcells] at h
      cases h
    | ok cells =>
      rw [hcells] at h
      cases h
      rfl

/-- A new memory has no regions and no leases, and the stack begins inside it. -/
theorem new_ok {size stack : Int} {m : Memory} (h : Memory.new size stack = .ok m) :
    m.spans = #[] ∧ m.leases = #[] ∧ m.next = 0 ∧ 0 < m.limit.toInt ∧
      m.limit.toInt < m.cells.size ∧ m.cells.size ≤ maxCells := by
  unfold Memory.new at h
  simp only at h
  have htop : 0 < (if stack ≤ 0 then defaultStackCells else stack) := by
    by_cases hstack : stack ≤ 0
    · rw [if_pos hstack]
      decide
    · rw [if_neg hstack]
      omega
  generalize (if stack ≤ 0 then defaultStackCells else stack) = top at h htop
  by_cases hsize : size ≤ top
  · rw [if_pos hsize] at h
    cases h
  · rw [if_neg hsize] at h
    unfold zeroCells at h
    split at h
    · next hcells =>
      cases h
      have hmax : (maxCells : Int) = 35184372088832 := by decide
      have hlimit : (Int64.ofInt (size - top)).toInt = size - top :=
        Int64.toInt_ofInt_of_le (by omega) (by omega)
      refine ⟨rfl, rfl, rfl, ?_, ?_, ?_⟩
      · show 0 < (Int64.ofInt (size - top)).toInt
        omega
      · show (Int64.ofInt (size - top)).toInt < (Array.replicate size.toNat (0 : Cell)).size
        rw [Array.size_replicate]
        omega
      · show (Array.replicate size.toNat (0 : Cell)).size ≤ maxCells
        rw [Array.size_replicate]
        omega
    · cases h

/-- The regions of a new memory stand in order. -/
theorem ordered_of_new {size stack : Int} {m : Memory} (h : Memory.new size stack = .ok m) :
    m.Ordered := by
  unfold Ordered entries
  rw [(new_ok h).1]
  exact List.Pairwise.nil

/-- The tables of names of a new memory are empty. -/
theorem tables_of_new {size stack : Int} {m : Memory} (h : Memory.new size stack = .ok m) :
    m.Indexed ∧ m.Listed := by
  rw [new_eq h]
  refine ⟨fun name id => ?_, List.nodup_nil, fun name => ?_⟩
  · exact iff_of_false nofun fun hmem => absurd hmem.2 List.not_mem_nil
  · exact iff_of_false List.not_mem_nil nofun

/-- **A reachable memory comes from a new one by changes.** -/
theorem Reachable.path {m : Memory} (h : m.Reachable) :
    ∃ size stack m₀ history, Memory.new size stack = .ok m₀ ∧ Path m₀ history m := by
  induction h with
  | @new size stack m hnew => exact ⟨size, stack, m, [], hnew, .start (ordered_of_new hnew)⟩
  | call c _ ih =>
    obtain ⟨size, stack, m₀, history, hnew, hpath⟩ := ih
    exact ⟨size, stack, m₀, history, hnew, hpath.call c⟩
  | lease id c _ ih =>
    obtain ⟨size, stack, m₀, history, hnew, hpath⟩ := ih
    exact ⟨size, stack, m₀, _, hnew, hpath.step (.lease id c)⟩
  | run processor target? args _ ih =>
    obtain ⟨size, stack, m₀, history, hnew, hpath⟩ := ih
    exact ⟨size, stack, m₀, history, hnew, hpath.run processor target? args⟩

/-- **The regions always stand in order.** In every memory that can come about they are in the order
of their bases, and each one ends before the next one begins. -/
theorem Reachable.ordered {m : Memory} (h : m.Reachable) : m.Ordered := by
  obtain ⟨_, _, _, _, _, hpath⟩ := h.path
  exact hpath.ordered

/-- **The index of names is always exact.** In every memory that can come about it holds the names
of the regions, each with the number of its region, and no other names. -/
theorem Reachable.indexed {m : Memory} (h : m.Reachable) : m.Indexed := by
  obtain ⟨_, _, _, _, hnew, hpath⟩ := h.path
  exact (hpath.tables (tables_of_new hnew)).1

/-- **The globals are always listed.** In every memory that can come about the order has the names
of the globals that have addresses, each once. -/
theorem Reachable.listed {m : Memory} (h : m.Reachable) : m.Listed := by
  obtain ⟨_, _, _, _, hnew, hpath⟩ := h.path
  exact (hpath.tables (tables_of_new hnew)).2

end Memory

end CellMachine
