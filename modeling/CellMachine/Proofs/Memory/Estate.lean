import CellMachine.Proofs.Memory.Seen
import CellMachine.Workspace

/-!
# Many parties on one memory

Several parties work on one memory at the same time: they hold leases on its regions, have emissions
on these leases, and run machines. An emission outlives its lease; it may go on trying to write when
the lease has been given up long ago. An estate is a memory together with all emissions that were
ever opened on its leases.

* `Estate`, `Move` — what the parties share, and what one of them can do next.
* `Estate.Reachable` — what can come about, in any order of moves and whether they succeed or fail.
* `Estate.history` — the writes and sealings made through leases so far. No move depends on it.
* `Estate.path_after` — a move is made of changes of the memory, and the history tells its events.
* `Estate.Reachable.sound` — the tables of the memory agree, every emission fits the region of its
  lease, and no two dynamic emissions were opened on one lease.
-/

namespace CellMachine

open CellMachine.Action

/-- An emission that was opened on a lease. -/
structure Tenant where
  lease : Nat
  /-- How the emission was opened. -/
  mode : Mode
  context : Context

/-- A memory that several parties share. -/
structure Estate where
  memory : Memory
  /-- The emissions that were opened on leases, in the order of their opening. -/
  tenants : List Tenant := []
  /-- The writes and sealings that were made through leases. -/
  history : History := []

/-- Something that one of the parties does. -/
inductive Move
  /-- A call to the memory itself, which may open a lease. -/
  | memory (c : MemoryCall)
  /-- A call to a lease. -/
  | lease (id : Nat) (c : LeaseCall)
  /-- An emission is opened on a lease. -/
  | occupy (mode : Mode) (id : Nat)
  /-- A call to an emission. -/
  | tenant (index : Nat) (c : EmissionCall)
  /-- A machine runs from its start to its end. -/
  | run (processor : Processor) (target? : Option Addr) (args : List Cell)
  /-- A machine that is running enters a region. -/
  | enter (a : Addr)
  /-- A machine that is running leaves a region. -/
  | leave (id? : Option Nat)

namespace Tenant

/-- Two tenants are not both dynamic ones on one lease. -/
def Apart (t u : Tenant) : Prop := t.mode = .dynamic → u.mode = .dynamic → t.lease ≠ u.lease

/-- The emission of a tenant on its lease. -/
def emission (t : Tenant) (m : Memory) : Emission Leasehold :=
  { context := t.context, region := { lease := t.lease, memory := m } }

end Tenant

namespace Estate

/-- The estate after an emission was opened on a lease, or refused. -/
def occupied (w : Estate) (mode : Mode) (h : Leasehold) : Estate :=
  match Workspace.freshContext mode h with
  | .ok context h' =>
    { w with memory := h'.memory, tenants := w.tenants ++ [{ lease := h.lease, mode, context }] }
  | .error _ h' => { w with memory := h'.memory }

/-- The estate after a call to the emission of a tenant. -/
def worked (w : Estate) (index : Nat) (t : Tenant) (c : EmissionCall) : Estate :=
  let e := t.emission w.memory
  { memory := (c.after e).region.memory
    tenants := w.tenants.set index { t with context := (c.after e).context }
    history := w.history ++ w.memory.tagged t.lease (c.events e) }

/-- The estate after a move. -/
def after (w : Estate) : Move → Estate
  | .memory c => { w with memory := c.after w.memory }
  | .lease id c =>
    let h : Leasehold := { lease := id, memory := w.memory }
    { w with
      memory := (c.after h).memory
      history := w.history ++ w.memory.tagged id (c.events h) }
  | .occupy mode id =>
    if id < w.memory.leases.size then w.occupied mode { lease := id, memory := w.memory } else w
  | .tenant index c =>
    match w.tenants[index]? with
    | none => w
    | some t => w.worked index t c
  | .run processor target? args =>
    { w with
      memory := ((Machine.invoke target? args).after { processor, memory := w.memory }).memory }
  | .enter a => { w with memory := (Memory.enter a).after w.memory }
  | .leave id? => { w with memory := w.memory.leave id? }

/-- An emission is opened. -/
theorem after_occupy {w : Estate} {mode : Mode} {id : Nat} {context : Context} {h : Leasehold}
    (hid : id < w.memory.leases.size)
    (hopen : Workspace.freshContext mode (Leasehold.mk id w.memory) = .ok context h) :
    w.after (.occupy mode id) =
      { w with memory := h.memory, tenants := w.tenants ++ [{ lease := id, mode, context }] } := by
  unfold after occupied
  simp only [if_pos hid, hopen]

/-- No emission is opened, and the tenants are those of before. -/
theorem tenants_occupy {w : Estate} {mode : Mode} {id : Nat}
    (hnone : ¬∃ context h, id < w.memory.leases.size ∧
      Workspace.freshContext mode (Leasehold.mk id w.memory) = .ok context h) :
    (w.after (.occupy mode id)).tenants = w.tenants := by
  unfold after occupied
  by_cases hid : id < w.memory.leases.size
  · simp only [if_pos hid]
    cases hopen : Workspace.freshContext mode (Leasehold.mk id w.memory) with
    | ok context h => exact absurd ⟨context, h, hid, hopen⟩ hnone
    | error failure h => rfl
  · simp only [if_neg hid]

/-- A call to a tenant that is there. -/
theorem after_tenant {w : Estate} {index : Nat} {t : Tenant} (ht : w.tenants[index]? = some t)
    (c : EmissionCall) : w.after (.tenant index c) = w.worked index t c := by
  unfold after
  simp only [ht]

/-- A call to a tenant that is not there. -/
theorem after_tenant_none {w : Estate} {index : Nat} (ht : w.tenants[index]? = none)
    (c : EmissionCall) : w.after (.tenant index c) = w := by
  unfold after
  simp only [ht]

/-- The estate after several moves. -/
def run (w : Estate) (moves : List Move) : Estate := moves.foldl after w

/-- What can come about on a new memory. -/
inductive Reachable : Estate → Prop
  | new {size stack : Int} {m : Memory} : Memory.new size stack = .ok m → Reachable { memory := m }
  | move {w : Estate} (mv : Move) : Reachable w → Reachable (w.after mv)

/-- After several moves there is something that can come about. -/
theorem Reachable.run {w : Estate} (hw : w.Reachable) (moves : List Move) :
    (w.run moves).Reachable := by
  induction moves generalizing w with
  | nil => exact hw
  | cons mv rest ih => exact ih (hw.move mv)

end Estate

/-! ### Emissions on leases -/

namespace Memory

/-- A tenant has a lease on a region, and its emission fits the region. -/
structure Houses (m : Memory) (t : Tenant) (l : Lease) (s : Span) : Prop where
  lease : m.leases[t.lease]? = some l
  region : s ∈ m.spans ∧ s.id = l.span
  bound : t.mode = .dynamic → l.bound = true
  fits : t.context.capacity = s.capacity.toInt.toNat
  waiting : ∀ name, ∀ site ∈ t.context.labels.pending name, site.offset < t.context.capacity

/-- A tenant keeps its lease and its region, whatever happens to the memory. -/
theorem Houses.later {m m' : Memory} {t : Tenant} {l : Lease} {s : Span} (h : m.Houses t l s)
    (hlater : m.Later m') : ∃ l' s', m'.Houses t l' s' := by
  obtain ⟨l', hl', hspan, hbound, -⟩ := hlater.leases t.lease l h.lease
  obtain ⟨s', hs', hid, hentry⟩ := hlater.spans s h.region.1
  have hcap : s'.capacity = s.capacity := congrArg RoutineEntry.capacity hentry
  exact ⟨l', s', hl', ⟨hs', (hid.trans h.region.2).trans hspan.symm⟩,
    fun hmode => hbound (h.bound hmode), by rw [hcap]; exact h.fits, h.waiting⟩

end Memory

namespace Recording

/-- What is put on record is added to the record. -/
theorem after_note {ρ : Type} (events : List RegionEvent) (x : Action ρ Unit) (r : Recording ρ) :
    (note events x).after r =
      { region := x.after r.region
        events := r.events ++ ((note events x).after ⟨r.region, []⟩).events } := by
  unfold Action.after note
  cases x r.region with
  | ok a region => simp
  | error failure region => simp

/-- What is not put on record leaves the record alone. -/
theorem after_note_nil {ρ : Type} (x : Action ρ Unit) (r : Recording ρ) :
    (note [] x).after r = { region := x.after r.region, events := r.events } := by
  unfold Action.after note
  cases x r.region with
  | ok a region => simp
  | error failure region => simp

end Recording

namespace Memory

/-- A recording lease whose memory has come about by changes, of which its record tells. -/
structure Follows (m₀ : Memory) (history : History) (id number : Nat)
    (r : Recording Leasehold) : Prop where
  same_lease : r.region.lease = id
  numbered : ∃ l, r.region.memory.leases[id]? = some l ∧ l.span = number
  path : Path m₀ (history ++ r.events.map fun event => (number, event)) r.region.memory

variable {m₀ : Memory} {history : History} {id number : Nat}

/-- A call to a lease goes on with the path and the record. -/
theorem Follows.call {r : Recording Leasehold} (h : Follows m₀ history id number r)
    (c : LeaseCall) :
    Follows m₀ history id number
      { region := c.after r.region, events := r.events ++ c.events r.region } := by
  obtain ⟨⟨i, m⟩, recorded⟩ := r
  obtain rfl : i = id := h.same_lease
  obtain ⟨l, hl, hspan⟩ := h.numbered
  refine ⟨LeaseCall.lease_after _ _, ?_, ?_⟩
  · obtain ⟨l', hl', hspan', -⟩ := (Later.lease m i c).leases i l hl
    exact ⟨l', hl', hspan'.trans hspan⟩
  · have hstep := h.path.step (.lease i c)
    rw [tagged_of_lease hl, hspan, List.append_assoc, ← List.map_append] at hstep
    exact hstep

/-- What an emission does through its lease goes on with the path and the record. -/
theorem upheld_follows (capacity : Nat) :
    Region.Upheld capacity (Follows m₀ history id number) where
  store offset v _ r h := by
    have hcall := h.call (.store offset v)
    show Follows m₀ history id number
      ((Recording.note [.stored] (Leasehold.store offset v)).after r)
    rw [Recording.after_note]
    exact hcall
  sealUp length r h := by
    have hcall := h.call (.sealUp length)
    show Follows m₀ history id number
      ((Recording.note [.sealed] (Leasehold.sealUp length)).after r)
    rw [Recording.after_note]
    exact hcall
  poison r h := by
    have hcall := h.call .poison
    show Follows m₀ history id number ((Recording.note [] Leasehold.poison).after r)
    rw [Recording.after_note_nil]
    simpa [LeaseCall.events, LeaseCall.after] using hcall

end Memory

namespace Tenant

/-- **A call to an emission on a lease is made of calls to the lease**, whose events are its own. -/
theorem path_call {m : Memory} (hm : m.Ordered) {t : Tenant} {l : Lease} {s : Span}
    (h : m.Houses t l s) (c : EmissionCall) :
    m.Path (m.tagged t.lease (c.events (t.emission m))) (c.after (t.emission m)).region.memory := by
  have hstart : (EmissionCall.recorded (t.emission m)).Keeping t.context.capacity
      (Memory.Follows m [] t.lease l.span) := by
    refine ⟨⟨rfl, ⟨l, h.lease, rfl⟩, ?_⟩, rfl, h.waiting⟩
    exact .start hm
  have hend := (EmissionCall.preserves (Memory.upheld_follows t.context.capacity) c hstart).region
  have hbare : (c.after (EmissionCall.recorded (t.emission m))).bare = c.after (t.emission m) :=
    c.bare_after _
  rw [Memory.tagged_of_lease h.lease, ← hbare]
  exact hend.path

/-- The emission of a tenant fits the region after every call. -/
theorem fits_call {m : Memory} (hm : m.Sound) {t : Tenant} {l : Lease} {s : Span}
    (h : m.Houses t l s) (c : EmissionCall) :
    (c.after (t.emission m)).Keeping t.context.capacity (m.Seen t.lease) :=
  EmissionCall.preserves (Memory.upheld_seen t.context.capacity) c
    ⟨⟨rfl, hm, .refl m⟩, rfl, h.waiting⟩

/-- A tenant is replaced by one of the same mode on the same lease. -/
theorem pairwise_set {tenants : List Tenant} (h : tenants.Pairwise Apart) {index : Nat}
    {t u : Tenant} (ht : tenants[index]? = some t) (hmode : u.mode = t.mode)
    (hlease : u.lease = t.lease) : (tenants.set index u).Pairwise Apart := by
  -- whether two tenants are apart depends on their modes and leases only
  let kind (v : Tenant) : Mode × Nat := (v.mode, v.lease)
  let ApartKinds (a b : Mode × Nat) : Prop := a.1 = .dynamic → b.1 = .dynamic → a.2 ≠ b.2
  have hkinds : (tenants.set index u).map kind = tenants.map kind := by
    refine List.ext_getElem? fun i => ?_
    rw [List.getElem?_map, List.getElem?_map, List.getElem?_set]
    split
    · next hi =>
      obtain ⟨hlt, -⟩ := List.getElem?_eq_some_iff.mp ht
      rw [if_pos hlt, ← hi, ht]
      exact congrArg some (Prod.ext hmode hlease)
    · rfl
  have hpairwise : (tenants.map kind).Pairwise ApartKinds := List.pairwise_map.mpr h
  rw [← hkinds, List.pairwise_map] at hpairwise
  exact hpairwise

end Tenant

/-! ### What always holds -/

namespace Estate

/-- The tables of the memory agree, and every tenant has a lease and a region of its own. -/
structure Sound (w : Estate) : Prop where
  ordered : w.memory.Ordered
  tables : w.memory.Sound
  housed : ∀ t ∈ w.tenants, ∃ l s, w.memory.Houses t l s
  single : w.tenants.Pairwise Tenant.Apart

/-- Opening an emission binds the lease at most. -/
theorem freshContext_after (mode : Mode) (h : Leasehold) :
    (Workspace.freshContext mode).after h = h ∨
      (Workspace.freshContext mode).after h = LeaseCall.attest.after h := by
  cases mode with
  | static => exact .inl rfl
  | dynamic =>
    refine .inr ?_
    show (Context.openDynamic).after h = (Region.attest).after h
    unfold Action.after Context.openDynamic
    cases Region.attest h <;> rfl

/-- A dynamic emission is opened on a lease that was free, and binds it. -/
theorem freshContext_binds {h h' : Leasehold} {context : Context}
    (hopen : Workspace.freshContext .dynamic h = .ok context h') :
    (∃ l, h.memory.leases[h.lease]? = some l ∧ l.bound = false) ∧
      ∃ l, h'.memory.leases[h.lease]? = some l ∧ l.bound = true := by
  have hattest : Leasehold.attest h = .ok () h' := by
    change Context.openDynamic h = .ok context h' at hopen
    show Region.attest h = .ok () h'
    unfold Context.openDynamic at hopen
    split at hopen
    · next hresult =>
      cases hopen
      exact hresult
    · cases hopen
  rcases hp : h.parts? with _ | ⟨l, s⟩
  · rw [show Leasehold.attest h = .error .crash h from Leasehold.withParts_of_none hp] at hattest
    cases hattest
  obtain ⟨hl, -⟩ := Leasehold.parts?_eq_some_iff.mp hp
  rw [Leasehold.attest_of_parts hp] at hattest
  split at hattest
  · cases hattest
  · split at hattest
    · cases hattest
    · split at hattest
      · cases hattest
      · next hbound =>
        cases hattest
        refine ⟨⟨l, hl, by simpa using hbound⟩, { l with bound := true }, ?_, rfl⟩
        show (h.memory.leases.modify h.lease _)[h.lease]? = _
        rw [Array.getElem?_modify, if_pos rfl, hl]
        rfl

/-- The context of an emission that is opened fits the region, and nothing waits in it. -/
theorem freshContext_fits {mode : Mode} {h h' : Leasehold} {context : Context}
    (hopen : Workspace.freshContext mode h = .ok context h') :
    context = Context.fresh mode h' := by
  cases mode with
  | static =>
    cases hopen
    rfl
  | dynamic =>
    change Context.openDynamic h = .ok context h' at hopen
    unfold Context.openDynamic at hopen
    split at hopen
    · cases hopen
      rfl
    · cases hopen

/-- An opening of an emission, whether it is refused or not, binds the lease at most. -/
theorem occupy_eq (w : Estate) (mode : Mode) (id : Nat) :
    (w.after (.occupy mode id)).history = w.history ∧
      ((w.after (.occupy mode id)).memory = w.memory ∨
        (w.after (.occupy mode id)).memory =
          (LeaseCall.attest.after { lease := id, memory := w.memory }).memory) := by
  have hbind := freshContext_after mode (Leasehold.mk id w.memory)
  unfold after
  by_cases hid : id < w.memory.leases.size
  · simp only [if_pos hid]
    unfold occupied
    cases hopen : Workspace.freshContext mode (Leasehold.mk id w.memory) with
    | ok context h =>
      rw [after_of_ok hopen] at hbind
      exact ⟨rfl, hbind.imp (congrArg Leasehold.memory) (congrArg Leasehold.memory)⟩
    | error failure h =>
      rw [after_of_error hopen] at hbind
      exact ⟨rfl, hbind.imp (congrArg Leasehold.memory) (congrArg Leasehold.memory)⟩
  · simp only [if_neg hid, true_or, and_self]

/-- **A move is made of changes of the memory**, and the history tells its events. -/
theorem path_after {w : Estate} (hw : w.Sound) (mv : Move) :
    ∃ events, (w.after mv).history = w.history ++ events ∧
      w.memory.Path events (w.after mv).memory := by
  have hstart : w.memory.Path [] w.memory := .start hw.ordered
  have hquiet {m : Memory} (h : w.memory.Path [] m) :
      ∃ events, w.history = w.history ++ events ∧ w.memory.Path events m :=
    ⟨[], (List.append_nil _).symm, h⟩
  cases mv with
  | memory c => exact hquiet (hstart.call c)
  | lease id c => exact ⟨_, rfl, hstart.step (.lease id c)⟩
  | occupy mode id =>
    obtain ⟨hhistory, hsame | hbound⟩ := occupy_eq w mode id
    · rw [hhistory, hsame]
      exact hquiet hstart
    · have hchange : w.memory.Change (w.memory.tagged id []) _ := .lease id .attest
      rw [Memory.tagged_nil] at hchange
      rw [hhistory, hbound]
      exact hquiet (hstart.quiet hchange)
  | tenant index c =>
    cases ht : w.tenants[index]? with
    | none =>
      rw [after_tenant_none ht]
      exact hquiet hstart
    | some t =>
      rw [after_tenant ht]
      obtain ⟨l, s, hhoused⟩ := hw.housed t (List.mem_of_getElem? ht)
      exact ⟨_, rfl, t.path_call hw.ordered hhoused c⟩
  | run processor target? args => exact hquiet (hstart.run processor target? args)
  | enter a => exact hquiet (Memory.enter_preserves a w.memory hstart)
  | leave id? => exact hquiet (hstart.leave id?)

/-- The tenants that were there stay where they are. -/
theorem Sound.stay {w : Estate} (hw : w.Sound) (mv : Move) {t : Tenant} (ht : t ∈ w.tenants) :
    ∃ l s, (w.after mv).memory.Houses t l s := by
  obtain ⟨events, -, hpath⟩ := path_after hw mv
  obtain ⟨l, s, hhoused⟩ := hw.housed t ht
  exact hhoused.later hpath.later

/-- A call to an emission leaves its tenant where it is. -/
theorem Sound.work {w : Estate} (hw : w.Sound) {index : Nat} {t : Tenant}
    (ht : w.tenants[index]? = some t) (c : EmissionCall) :
    ∃ l s, (w.worked index t c).memory.Houses
      { t with context := (c.after (t.emission w.memory)).context } l s := by
  have hmem := List.mem_of_getElem? ht
  obtain ⟨l₀, s₀, hhoused₀⟩ := hw.housed t hmem
  obtain ⟨l, s, hhoused⟩ := hw.stay (.tenant index c) hmem
  rw [after_tenant ht] at hhoused
  have hfits := t.fits_call hw.tables hhoused₀ c
  refine ⟨l, s, hhoused.lease, hhoused.region, hhoused.bound, ?_, ?_⟩
  · exact hfits.same_capacity.trans hhoused.fits
  · intro name site hsite
    show site.offset < (c.after (t.emission w.memory)).context.capacity
    rw [hfits.same_capacity]
    exact hfits.waiting name site hsite

/-- An emission that is opened has a lease and fits the region. -/
theorem Sound.settle {w : Estate} (hw : w.Sound) {mode : Mode} {id : Nat} {context : Context}
    {h : Leasehold} (hid : id < w.memory.leases.size)
    (hopen : Workspace.freshContext mode (Leasehold.mk id w.memory) = .ok context h) :
    ∃ l s, h.memory.Houses { lease := id, mode, context } l s := by
  obtain ⟨events, -, hpath⟩ := path_after hw (.occupy mode id)
  rw [after_occupy hid hopen] at hpath
  have htables := hpath.sound hw.tables
  obtain ⟨l, hl, -⟩ := hpath.later.leases id _ (Array.getElem?_eq_getElem hid)
  obtain ⟨s, hs, hsl⟩ := htables.placed id l hl
  have hlease : h.lease = id := by
    rcases freshContext_after mode (Leasehold.mk id w.memory) with hsame | hbound
    · rw [← after_of_ok hopen, hsame]
    · rw [← after_of_ok hopen, hbound, LeaseCall.lease_after]
  have hparts : h.parts? = some (l, s) := by
    refine (Memory.Sound.parts?_eq_some_iff htables).mpr ⟨?_, hs, hsl⟩
    rw [hlease]
    exact hl
  have hcontext := freshContext_fits hopen
  refine ⟨l, s, hl, ⟨hs, hsl⟩, ?_, ?_, ?_⟩
  · rintro rfl
    obtain ⟨-, l', hl', hbound⟩ := freshContext_binds hopen
    rw [show l = l' from Option.some.inj (hl.symm.trans hl')]
    exact hbound
  · show context.capacity = s.capacity.toInt.toNat
    rw [hcontext]
    exact Leasehold.capacity_of_parts hparts
  · intro name site hsite
    rw [hcontext] at hsite
    cases hsite

/-- **Every move keeps the estate sound.** -/
theorem Sound.after {w : Estate} (hw : w.Sound) (mv : Move) : (w.after mv).Sound := by
  obtain ⟨events, -, hpath⟩ := path_after hw mv
  have hstay := fun t ht => hw.stay mv (t := t) ht
  have hsame (htenants : (w.after mv).tenants = w.tenants) : (w.after mv).Sound := by
    refine ⟨hpath.ordered, hpath.sound hw.tables, ?_, ?_⟩
    · rw [htenants]
      exact hstay
    · rw [htenants]
      exact hw.single
  cases mv with
  | memory c => exact hsame rfl
  | lease id c => exact hsame rfl
  | run processor target? args => exact hsame rfl
  | enter a => exact hsame rfl
  | leave id? => exact hsame rfl
  | occupy mode id =>
    by_cases hnone : ∃ context h, id < w.memory.leases.size ∧
        Workspace.freshContext mode (Leasehold.mk id w.memory) = .ok context h
    · obtain ⟨context, h, hid, hopen⟩ := hnone
      rw [after_occupy hid hopen] at hpath hstay ⊢
      refine ⟨hpath.ordered, hpath.sound hw.tables, ?_, ?_⟩
      · intro t ht
        rcases List.mem_append.mp ht with hold | hnew
        · exact hstay t hold
        · rw [List.mem_singleton.mp hnew]
          exact hw.settle hid hopen
      · refine List.pairwise_append.mpr ⟨hw.single, List.pairwise_singleton _ _, ?_⟩
        intro t ht u hu hdynamic hdynamic' heq
        -- the lease of an older dynamic emission is bound, and so it cannot be the new one's
        rw [List.mem_singleton.mp hu] at hdynamic' heq
        obtain rfl : mode = .dynamic := hdynamic'
        obtain ⟨⟨l, hl, hfree⟩, -⟩ := freshContext_binds hopen
        obtain ⟨l', s, hhoused⟩ := hw.housed t ht
        have hbound := hhoused.bound hdynamic
        have hl' : w.memory.leases[id]? = some l' := by
          rw [← show t.lease = id from heq]
          exact hhoused.lease
        rw [show l' = l from Option.some.inj (hl'.symm.trans hl), hfree] at hbound
        cases hbound
    · exact hsame (tenants_occupy hnone)
  | tenant index c =>
    cases ht : w.tenants[index]? with
    | none => exact hsame (by rw [after_tenant_none ht])
    | some t =>
      have hwork := hw.work ht c
      rw [after_tenant ht] at hpath hstay ⊢
      refine ⟨hpath.ordered, hpath.sound hw.tables, ?_, ?_⟩
      · intro u hu
        rcases List.mem_or_eq_of_mem_set hu with hold | rfl
        · exact hstay u hold
        · exact hwork
      · exact Tenant.pairwise_set hw.single ht rfl rfl

/-- **What always holds of an estate.** -/
theorem Reachable.sound {w : Estate} (hw : w.Reachable) : w.Sound := by
  induction hw with
  | new hnew =>
    refine ⟨Memory.ordered_of_new hnew, Memory.sound_of_new hnew, ?_, List.Pairwise.nil⟩
    intro t ht
    cases ht
  | move mv _ ih => exact ih.after mv

/-- **The memory of an estate comes from a new one by changes**, of which the history tells. -/
theorem Reachable.path {w : Estate} (hw : w.Reachable) :
    ∃ size stack m₀, Memory.new size stack = .ok m₀ ∧ Memory.Path m₀ w.history w.memory := by
  induction hw with
  | @new size stack m hnew => exact ⟨size, stack, m, hnew, .start (Memory.ordered_of_new hnew)⟩
  | @move w mv hreach ih =>
    obtain ⟨size, stack, m₀, hnew, hpath⟩ := ih
    obtain ⟨events, hhistory, hmore⟩ := path_after hreach.sound mv
    rw [hhistory]
    exact ⟨size, stack, m₀, hnew, hpath.trans hmore⟩

/-- The tables of names of an estate agree, whatever moves have been made. -/
theorem Reachable.tables {w : Estate} (hw : w.Reachable) : w.memory.Indexed ∧ w.memory.Listed := by
  obtain ⟨size, stack, m₀, hnew, hpath⟩ := hw.path
  exact hpath.tables (Memory.tables_of_new hnew)

/-- After several moves the memory has kept what it keeps for good. -/
theorem Reachable.later {w : Estate} (hw : w.Reachable) (moves : List Move) :
    w.memory.Later (w.run moves).memory := by
  induction moves generalizing w with
  | nil => exact .refl _
  | cons mv rest ih =>
    obtain ⟨events, -, hpath⟩ := path_after hw.sound mv
    exact hpath.later.trans (ih (hw.move mv))

end Estate

end CellMachine
