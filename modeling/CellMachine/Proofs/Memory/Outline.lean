import CellMachine.Proofs.Memory.Leases
import CellMachine.Proofs.Memory.Loading
import CellMachine.Proofs.Program.Bounds

/-!
# The outline of a memory

What is handed out of a memory is a matter of a few numbers and places: its size, where the stack
begins, the first cell that is not handed out, the addresses of the globals, and the places of the
regions. Most of what can happen to a memory leaves all of these alone.

* `MemoryStep`, `Memory.afterAll` — whatever can happen to a memory, one thing after the other.
* `Memory.SameOutline` — two memories have the same outline.
* `Memory.lease_sameOutline`, `Memory.run_sameOutline` — **what is done through leases and by
  machines leaves the outline alone**, and so do writes of cells.
* `Memory.register_cases` — a registration is refused or adds one place, and nothing else.
* `Memory.mem_entries_of_not_clashing` — routines that are registered have their places.
-/

namespace CellMachine

open CellMachine.Action

/-- Something that happens to a memory. -/
inductive MemoryStep
  /-- A call to the memory itself. -/
  | call (c : MemoryCall)
  /-- A call to one of its leases. -/
  | lease (id : Nat) (c : LeaseCall)
  /-- A machine runs in the memory from its start to its end. -/
  | run (processor : Processor) (target? : Option Addr) (args : List Cell)

/-- The memory after something has happened to it. -/
def MemoryStep.after : MemoryStep → Memory → Memory
  | .call c, m => c.after m
  | .lease id c, m => (c.after { lease := id, memory := m }).memory
  | .run processor target? args, m =>
    ((Machine.invoke target? args).after { processor, memory := m }).memory

namespace Memory

/-- The memory after several things have happened to it. -/
def afterAll (m : Memory) (steps : List MemoryStep) : Memory :=
  steps.foldl (fun m step => step.after m) m

/-- What comes about by one step can come about. -/
theorem Reachable.step {m : Memory} (h : m.Reachable) (step : MemoryStep) :
    (step.after m).Reachable := by
  cases step with
  | call c => exact h.call c
  | lease id c => exact h.lease id c
  | run processor target? args => exact h.run processor target? args

/-- What comes about by many steps can come about. -/
theorem Reachable.afterAll {m : Memory} (h : m.Reachable) (steps : List MemoryStep) :
    (m.afterAll steps).Reachable := by
  induction steps generalizing m with
  | nil => exact h
  | cons step rest ih => exact ih (h.step step)

/-- The stack lies inside the memory, and the memory inside all storage. -/
theorem Reachable.bounds {m : Memory} (h : m.Reachable) :
    m.next ≤ m.limit ∧ 0 < m.limit.toInt ∧ m.limit.toInt < m.cells.size ∧
      m.cells.size ≤ maxCells := by
  obtain ⟨size, stack, m₀, history, hnew, hpath⟩ := h.path
  exact hpath.bounds hnew

/-! ### Outlines -/

/-- The same cells are handed out of two memories, and under the same names. -/
structure SameHoldings (m m' : Memory) : Prop where
  size : m'.cells.size = m.cells.size
  limit : m'.limit = m.limit
  next : m'.next = m.next
  addresses : m'.addresses = m.addresses
  order : m'.order = m.order

/-- Two memories have the same outline. -/
structure SameOutline (m m' : Memory) : Prop extends m.SameHoldings m' where
  entries : m'.entries = m.entries

variable {m m' m'' : Memory}

/-- Nothing has happened to what is handed out. -/
theorem SameHoldings.refl (m : Memory) : m.SameHoldings m := ⟨rfl, rfl, rfl, rfl, rfl⟩

/-- Nothing has happened to what is handed out, and then again nothing. -/
theorem SameHoldings.trans (h : m.SameHoldings m') (h' : m'.SameHoldings m'') :
    m.SameHoldings m'' :=
  ⟨h'.size.trans h.size, h'.limit.trans h.limit, h'.next.trans h.next,
    h'.addresses.trans h.addresses, h'.order.trans h.order⟩

/-- Nothing has happened to the outline. -/
theorem SameOutline.refl (m : Memory) : m.SameOutline m := ⟨.refl m, rfl⟩

/-- Nothing has happened to the outline, and then again nothing. -/
theorem SameOutline.trans (h : m.SameOutline m') (h' : m'.SameOutline m'') :
    m.SameOutline m'' :=
  ⟨h.toSameHoldings.trans h'.toSameHoldings, h'.entries.trans h.entries⟩

/-- Other cells, as many as before. -/
theorem SameOutline.of_cells (m : Memory) {cells : Array Cell} (hsize : cells.size = m.cells.size) :
    m.SameOutline { m with cells } := ⟨⟨hsize, rfl, rfl, rfl, rfl⟩, rfl⟩

/-- A change of regions that moves none of them. -/
theorem SameOutline.updateSpan (m : Memory) (id : Nat) {f : Span → Span}
    (hf : ∀ s, (f s).entry = s.entry) : m.SameOutline (m.updateSpan id f) :=
  ⟨⟨rfl, rfl, rfl, rfl, rfl⟩, entries_updateSpan m id hf⟩

/-- What always leaves the outline alone preserves it. -/
theorem preserves_sameOutline {α : Type} {x : Action Memory α}
    (h : ∀ m : Memory, m.SameOutline (x.after m)) : Preserves m.SameOutline x :=
  fun _ hm => hm.trans (h _)

/-! ### What leaves the outline alone -/

/-- Writing a cell leaves the outline alone. -/
theorem put_sameOutline (a : Addr) (v : Cell) (m : Memory) :
    m.SameOutline ((put a v).after m) := by
  by_cases h : m.inBounds a
  · simp only [after, put, h, if_true]
    apply SameOutline.of_cells
    simp
  · simp only [after, put, h]
    exact .refl m

/-- Storing a cell leaves the outline alone. -/
theorem store_sameOutline (a : Addr) (v : Cell) (m : Memory) :
    m.SameOutline ((store a v).after m) := by
  by_cases h : m.inBounds a
  · have hstore : (store a v).after m = (put a v).after m := by simp [after, store, h]
    rw [hstore]
    exact put_sameOutline a v m
  · have hstore : (store a v).after m = m := by simp [after, store, h]
    rw [hstore]
    exact .refl m

/-- Overwriting a global leaves the outline alone. -/
theorem setGlobal_sameOutline (name : String) (v : Cell) (m : Memory) :
    m.SameOutline ((setGlobal name v).after m) := by
  unfold after setGlobal
  cases m.globalAddr? name with
  | none => exact .refl m
  | some a => exact put_sameOutline a v m

/-- Copying cells leaves the outline alone. -/
theorem copy_sameOutline (base : Addr) (cells : Array Cell) (m : Memory) :
    m.SameOutline ((copy base cells).after m) := by
  obtain ⟨cells', hcopy, hsize⟩ := exists_copy base cells m
  rw [hcopy]
  exact .of_cells m hsize

/-- Filling a new region leaves the outline alone. -/
theorem fillStub_sameOutline (base : Addr) (capacity : Int64) (m : Memory) :
    m.SameOutline ((fillStub base capacity).after m) :=
  preserves_fillStub (fun cells => preserves_sameOutline (copy_sameOutline base cells))
    capacity m (.refl m)

/-- Opening a lease leaves the outline alone. -/
theorem openLease_sameOutline (s : Span) (m : Memory) :
    m.SameOutline ((openLease s).after m) := by
  have hgranted : m.SameOutline (m.granted s) :=
    (⟨⟨rfl, rfl, rfl, rfl, rfl⟩, rfl⟩ :
      m.SameOutline { m with leases := m.leases.push { span := s.id } }).trans
      (.updateSpan _ s.id fun _ => rfl)
  unfold after
  rw [openLease_eq]
  by_cases hleased : s.lease?.isSome
  · simp only [if_pos hleased]
    exact .refl m
  · by_cases hrunning : 0 < s.running
    · simp only [if_neg hleased, if_pos hrunning]
      exact .refl m
    · simp only [if_neg hleased, if_neg hrunning]
      exact hgranted

/-- Opening a lease on the region of a name leaves the outline alone. -/
theorem leaseNamed_sameOutline (name : String) (m : Memory) :
    m.SameOutline ((leaseNamed name).after m) := by
  have hget : (EStateM.get : Action Memory Memory) m = .ok m m := rfl
  unfold after leaseNamed
  rw [bind_of_ok hget]
  cases m.spanNamed? name with
  | none => exact .refl m
  | some s => exact openLease_sameOutline s m

/-- A call to a lease leaves the outline alone. -/
theorem lease_sameOutline (m : Memory) (id : Nat) (c : LeaseCall) :
    m.SameOutline (c.after { lease := id, memory := m }).memory := by
  refine ⟨?_, entries_lease m id c⟩
  have heffect := c.effect { lease := id, memory := m }
  generalize c.after { lease := id, memory := m } = h,
    c.events { lease := id, memory := m } = events at heffect
  cases heffect with
  | wrote v hp hs hin => exact ⟨Array.size_setIfInBounds, rfl, rfl, rfl, rfl⟩
  | nothing | bound | sealed | poisoned | released => exact ⟨rfl, rfl, rfl, rfl, rfl⟩

/-- Entering a region leaves the outline alone. -/
theorem enter_sameOutline (a : Addr) (m : Memory) : m.SameOutline ((enter a).after m) := by
  unfold after enter
  by_cases hbounds : !m.inBounds a
  · simp only [if_pos hbounds]
    exact .refl m
  · simp only [if_neg hbounds]
    cases m.find? a with
    | none => exact .refl m
    | some s =>
      by_cases hleased : s.lease?.isSome
      · simp only [if_pos hleased]
        exact .refl m
      · by_cases hpoisoned : s.poisoned
        · simp only [if_neg hleased, if_pos hpoisoned]
          exact .refl m
        · simp only [if_neg hleased, if_neg hpoisoned]
          exact .updateSpan m s.id fun _ => rfl

/-- Leaving a region leaves the outline alone. -/
theorem leave_sameOutline (id? : Option Nat) (m : Memory) : m.SameOutline (m.leave id?) := by
  cases id? with
  | none => exact .refl m
  | some id => exact .updateSpan m id fun _ => rfl

/-- All that a machine does to its memory leaves the outline alone. -/
theorem upheld_sameOutline (m : Memory) : Upheld m.SameOutline where
  store a v := preserves_sameOutline (store_sameOutline a v)
  enter a := preserves_sameOutline (enter_sameOutline a)
  leave id? _ hm := hm.trans (leave_sameOutline id? _)

/-- **A run of a machine leaves the outline alone.** -/
theorem run_sameOutline (m : Memory) (processor : Processor) (target? : Option Addr)
    (args : List Cell) :
    m.SameOutline ((Machine.invoke target? args).after { processor, memory := m }).memory :=
  Machine.invoke_preserves (upheld_sameOutline m) target? args { processor, memory := m } (.refl m)

/-! ### Registration -/

/-- A memory after one more region was registered in it. -/
structure Adds (m : Memory) (r : RoutineEntry) (m' : Memory) : Prop extends
    m.SameHoldings m', m.Inserted r m' where
  fresh : m.Fresh r.name

/-- A registration hands nothing out. -/
theorem register_sameHoldings (name : String) (base : Addr) (capacity : Int64) (m : Memory) :
    m.SameHoldings ((register name base capacity).after m) := by
  rcases after_register name base capacity m with hsame | ⟨i, hnew⟩
  · rw [hsame]
    exact .refl m
  · rw [hnew]
    exact ⟨rfl, rfl, rfl, rfl, rfl⟩

/-- **A registration is refused or adds one region.** -/
theorem register_cases (hm : m.Ordered) (r : RoutineEntry) :
    (∃ failure, register r.name r.base r.capacity m = .error failure m) ∨
      ∃ s m', register r.name r.base r.capacity m = .ok s m' ∧ m.Adds r m' := by
  by_cases hname : m.Fresh r.name
  · by_cases hblocked : m.Blocked r
    · obtain ⟨other, hreg⟩ := register_of_blocked hm hname hblocked
      exact .inl ⟨_, hreg⟩
    · obtain ⟨s, m', hreg, hins⟩ := exists_inserted_of_clear hm hname hblocked
      have hsame := register_sameHoldings r.name r.base r.capacity m
      rw [after_of_ok hreg] at hsame
      exact .inr ⟨s, m', hreg, hsame, hins, hname⟩
  · exact .inl ⟨_, register_of_taken hname r.base r.capacity⟩

/-- Registering the routines of an image hands nothing out. -/
theorem registerRoutines_sameHoldings (routines : List RoutineEntry) :
    Preserves m.SameHoldings (registerRoutines routines) := by
  induction routines with
  | nil => exact .pure ()
  | cons r rest ih =>
    refine .bind (fun m' hm' => hm'.trans (register_sameHoldings _ _ _ m')) fun span =>
      .bind (.modify fun m' hm' => ?_) fun _ => ih
    exact hm'.trans ⟨rfl, rfl, rfl, rfl, rfl⟩

/-- Routines are registered one after the other. -/
theorem registerRoutines_append (first rest : List RoutineEntry) :
    registerRoutines (first ++ rest) =
      registerRoutines first >>= fun _ => registerRoutines rest := by
  induction first with
  | nil => simp [registerRoutines]
  | cons r first ih => simp [registerRoutines, ih]

/-- The first routines of a list are ready if all of them are. -/
theorem Ready.of_append (first rest : List RoutineEntry) (h : m.Ready (first ++ rest)) :
    m.Ready first where
  ordered := h.ordered
  names := by
    have hnames := h.names
    rw [List.map_append] at hnames
    exact (List.nodup_append.mp hnames).1
  fresh r hr := h.fresh r (List.mem_append_left rest hr)
  apart := (List.pairwise_append.mp h.apart).1

/-- The first routine is added, unless the memory is in its way, and then the others are
registered. -/
theorem registerRoutines_cons {r : RoutineEntry} {rest : List RoutineEntry}
    (h : m.Ready (r :: rest)) (hclear : ¬m.Blocked r) :
    ∃ m', m.Adds r m' ∧ registerRoutines (r :: rest) m = registerRoutines rest m' := by
  have hfirst : m.Ready [r] := Ready.of_append [r] rest h
  obtain ⟨m', hins, hone⟩ := registerRoutines_of_clear hfirst hclear
  change registerRoutines [r] m = .ok () m' at hone
  have hsame := (registerRoutines_sameHoldings [r]).ok (.refl m) hone
  refine ⟨m', ⟨hsame, hins, h.fresh r List.mem_cons_self⟩, ?_⟩
  have happend := congrFun (registerRoutines_append [r] rest) m
  exact happend.trans (bind_of_ok hone)

/-- **Routines that are registered have their places.** If none of the first ones clashes then the
last of them is there, whatever becomes of those after it. -/
theorem mem_entries_of_not_clashing {before after : List RoutineEntry} {r : RoutineEntry} :
    ∀ {m : Memory}, m.Ready (before ++ r :: after) → ¬m.Clashing (before ++ [r]) →
      r ∈ ((registerRoutines (before ++ r :: after)).after m).entries := by
  induction before with
  | nil =>
    intro m h hno
    have hclear : ¬m.Blocked r := fun hblocked => hno ⟨[], r, [], rfl, .inl hblocked⟩
    obtain ⟨m', hadds, heq⟩ := registerRoutines_cons h hclear
    have hthere : r ∈ m'.entries := hadds.entries.mem_iff.mpr List.mem_cons_self
    -- what is registered later takes nothing away
    obtain ⟨s, hs, hentry⟩ := List.mem_map.mp hthere
    have hpath := registerRoutines_preserves after m' (.start hadds.ordered)
    obtain ⟨t, ht, -, hsame⟩ := hpath.later.spans s (Array.mem_toList_iff.mp hs)
    have hlast : (registerRoutines (r :: after)).after m = (registerRoutines after).after m' :=
      after_congr heq
    rw [List.nil_append, hlast, ← hentry, ← hsame]
    exact mem_entries_of_mem ht
  | cons first before ih =>
    intro m h hno
    have hclear : ¬m.Blocked first := fun hblocked =>
      hno ⟨[], first, before ++ [r], rfl, .inl hblocked⟩
    obtain ⟨m', hadds, heq⟩ := registerRoutines_cons h hclear
    have hready : m.Ready (first :: (before ++ [r])) := by
      apply Ready.of_append _ after
      simpa using h
    have hlast : (registerRoutines (first :: before ++ r :: after)).after m =
        (registerRoutines (before ++ r :: after)).after m' := after_congr heq
    rw [hlast]
    apply ih (h.tail hadds.toInserted)
    intro hclash
    exact hno ((clashing_cons_iff hready hadds.toInserted).mpr (.inr hclash))

end Memory

end CellMachine
