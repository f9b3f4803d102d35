import CellMachine.Proofs.Memory.Estate

/-!
# Torn regions

A region is dirty if something was written into it through a lease and it was not sealed since. Its
cells may be half of one stream and half of another one, so nobody should call it. The memory has
no mark for this; it knows whether a region is leased or poisoned, and whether something was written
under a lease. This is enough to keep dirty regions closed.

* `Dirty` — what the history says of a region.
* `Memory.Guarded` — a dirty region is poisoned, or something was written under its open lease.
* `Memory.Change.guarded` — every change keeps dirty regions guarded, however a lease is closed.
* `Estate.Reachable.guarded` — **a dirty region is always leased or poisoned.**
-/

namespace CellMachine

/-- Something was written into a region after it was sealed last. -/
def Dirty (history : History) (id : Nat) : Prop :=
  ∃ before after, history = before ++ (id, .stored) :: after ∧ (id, .sealed) ∉ after

/-- What one more event says of a region. -/
theorem dirty_concat {history : History} {event : Nat × RegionEvent} {id : Nat} :
    Dirty (history ++ [event]) id ↔
      event = (id, .stored) ∨ event ≠ (id, .sealed) ∧ Dirty history id := by
  constructor
  · rintro ⟨before, after, heq, hsealed⟩
    rcases List.eq_nil_or_concat' after with rfl | ⟨rest, last, rfl⟩
    · exact .inl (List.cons.inj (List.append_inj_right' heq rfl)).1
    · rw [← List.cons_append, ← List.append_assoc] at heq
      have hlast : event = last := (List.cons.inj (List.append_inj_right' heq rfl)).1
      rw [List.mem_append, not_or, List.mem_singleton] at hsealed
      refine .inr ⟨?_, before, rest, List.append_inj_left' heq rfl, hsealed.1⟩
      rw [hlast]
      exact fun h => hsealed.2 h.symm
  · rintro (rfl | ⟨hne, before, after, rfl, hsealed⟩)
    · exact ⟨history, [], rfl, by simp⟩
    · refine ⟨before, after ++ [event], by simp, ?_⟩
      rw [List.mem_append, not_or, List.mem_singleton]
      exact ⟨hsealed, fun h => hne h.symm⟩

namespace Memory

/-- Something was written under a lease. -/
def Written (m : Memory) (id : Nat) : Prop := ∃ l, m.leases[id]? = some l ∧ l.written = true

/-- A region that need not be feared even if it is dirty: it is poisoned, or it will be when its
lease is given up. -/
def Barred (m : Memory) (s : Span) : Prop :=
  s.poisoned = true ∨ ∃ id, s.lease? = some id ∧ m.Written id

/-- Dirty regions are barred, and the history speaks of regions only. -/
structure Guarded (history : History) (m : Memory) : Prop where
  barred : ∀ s ∈ m.spans, Dirty history s.id → m.Barred s
  numbered : ∀ event ∈ history, event.1 < m.spans.size

/-- What was written under a lease stays written. -/
theorem Written.modify {m m' : Memory} {id i : Nat} (h : m.Written id) {g : Lease → Lease}
    (hg : ∀ l, l.written = true → (g l).written = true)
    (hleases : m'.leases = m.leases.modify i g) : m'.Written id := by
  obtain ⟨l, hl, hwritten⟩ := h
  unfold Written
  rw [hleases, Array.getElem?_modify]
  split
  · rw [hl]
    exact ⟨g l, rfl, hg l hwritten⟩
  · exact ⟨l, hl, hwritten⟩

/-- A region that keeps its marks stays barred. -/
theorem Barred.of_written {m m' : Memory} {s t : Span} (h : m.Barred s)
    (hpoisoned : t.poisoned = s.poisoned) (hlease : t.lease? = s.lease?)
    (hwritten : ∀ id, m.Written id → m'.Written id) : m'.Barred t := by
  rcases h with hp | ⟨id, hid, hw⟩
  · exact .inl (hpoisoned.trans hp)
  · exact .inr ⟨id, hlease.trans hid, hwritten id hw⟩

namespace Guarded

variable {m m' : Memory} {history : History}

/-- A change that is no event, and leaves the marks of all regions alone. -/
theorem of_same (h : Guarded history m) (hsize : m.spans.size ≤ m'.spans.size)
    (hspans : ∀ t ∈ m'.spans, Dirty history t.id → ∃ s ∈ m.spans, t.id = s.id ∧
      t.poisoned = s.poisoned ∧ t.lease? = s.lease?)
    (hwritten : ∀ id, m.Written id → m'.Written id) : Guarded history m' := by
  refine ⟨?_, ?_⟩
  · intro t ht hdirty
    obtain ⟨s, hs, hid, hpoisoned, hlease⟩ := hspans t ht hdirty
    exact (h.barred s hs (hid ▸ hdirty)).of_written hpoisoned hlease hwritten
  · intro event hevent
    exact Nat.lt_of_lt_of_le (h.numbered event hevent) hsize

/-- A lease that is closed takes the guard over to its region. -/
theorem close {h : Leasehold} (hm : h.memory.Sound) (hguard : Guarded history h.memory)
    {lease : Lease} {span : Span} (hp : h.parts? = some (lease, span)) {f : Span → Span}
    (hid : ∀ s, (f s).id = s.id) {events : History}
    (hevents : events = [] ∨ events = [(span.id, .sealed)])
    (hf : Dirty (history ++ events) span.id → (f span).poisoned = true) :
    Guarded (history ++ events) (h.close span f).memory := by
  obtain ⟨-, hspan, -⟩ := hm.parts?_eq_some_iff.mp hp
  refine ⟨?_, ?_⟩
  · intro t ht hdirty
    obtain ⟨s, hs, rfl⟩ := mem_updateSpan.mp ht
    split at hdirty
    · next hsid =>
      rw [if_pos hsid, hm.eq_of_id hs hspan hsid]
      rw [hm.eq_of_id hs hspan hsid, hid] at hdirty
      exact .inl (hf hdirty)
    · next hsid =>
      rw [if_neg hsid]
      have hold : Dirty history s.id := by
        rcases hevents with rfl | rfl
        · rwa [List.append_nil] at hdirty
        · rcases dirty_concat.mp hdirty with heq | ⟨-, hold⟩
          · cases (Prod.mk.inj heq).2
          · exact hold
      refine (hguard.barred s hs hold).of_written rfl rfl fun id hwritten => ?_
      exact hwritten.modify (g := fun l => { l with done := true }) (fun _ hw => hw) rfl
  · intro event hevent
    have hsize : (h.close span f).memory.spans.size = h.memory.spans.size := Array.size_map
    rw [hsize]
    rcases List.mem_append.mp hevent with hold | hnew
    · exact hguard.numbered event hold
    · rcases hevents with rfl | rfl
      · cases hnew
      · rw [List.mem_singleton.mp hnew]
        exact hm.below span hspan

/-- A new region is not dirty. -/
theorem register (h : Guarded history m) {r : RoutineEntry} {low high : List Span}
    (hs : m.spans.toList = low ++ high) :
    Guarded history (m.registered r low high) := by
  have hsize : m.spans.size < (low ++ m.newSpan r :: high).toArray.size := by
    rw [← Array.length_toList, hs]
    simp
  refine h.of_same (Nat.le_of_lt hsize) ?_ fun _ hwritten => hwritten
  intro t ht hdirty
  rcases (mem_register hs).mp ht with rfl | hold
  · -- nothing can have happened yet under a number that is given out only now
    obtain ⟨before, after, rfl, -⟩ := hdirty
    have hlt := h.numbered ((m.newSpan r).id, .stored) (by simp)
    exact absurd hlt (Nat.lt_irrefl _)
  · exact ⟨t, hold, rfl, rfl, rfl⟩

/-- A region that is dirty when it is leased is poisoned. -/
theorem grant (hm : m.Sound) (h : Guarded history m) {s : Span} (hs : s ∈ m.spans)
    (hnone : s.lease? = none) : Guarded history (m.granted s) := by
  refine ⟨?_, ?_⟩
  · intro t ht hdirty
    obtain ⟨u, hu, rfl⟩ := mem_updateSpan.mp ht
    split at hdirty
    · next hus =>
      rw [if_pos hus]
      obtain rfl : u = s := hm.eq_of_id hu hs hus
      rcases h.barred u hu hdirty with hpoisoned | ⟨i, hi, -⟩
      · exact .inl hpoisoned
      · rw [hnone] at hi
        cases hi
    · next hus =>
      rw [if_neg hus]
      refine (h.barred u hu hdirty).of_written rfl rfl fun i hwritten => ?_
      obtain ⟨l, hl, hw⟩ := hwritten
      have hlt := (Array.getElem?_eq_some_iff.mp hl).1
      refine ⟨l, ?_, hw⟩
      show (m.leases.push _)[i]? = some l
      rw [Array.getElem?_push, if_neg (Nat.ne_of_lt hlt), hl]
  · intro event hevent
    have hsize : (m.granted s).spans.size = m.spans.size := Array.size_map
    rw [hsize]
    exact h.numbered event hevent

/-- A write makes a region dirty, and the lease that the region records notes it. -/
theorem wrote (hm : m.Sound) (h : Guarded history m) {id : Nat} {l : Lease} {s : Span}
    (hl : m.leases[id]? = some l) (hs : s ∈ m.spans) (hrecord : s.lease? = some id)
    (hspans : m'.spans = m.spans)
    (hleases : m'.leases = m.leases.modify id fun l => { l with written := true }) :
    Guarded (history ++ [(s.id, .stored)]) m' := by
  refine ⟨?_, ?_⟩
  · intro t ht hdirty
    rw [hspans] at ht
    rcases dirty_concat.mp hdirty with heq | ⟨-, hold⟩
    · have hts : t = s := hm.eq_of_id ht hs (Prod.mk.inj heq).1.symm
      refine .inr ⟨id, hts ▸ hrecord, { l with written := true }, ?_, rfl⟩
      rw [hleases, Array.getElem?_modify, if_pos rfl, hl]
      rfl
    · refine (h.barred t ht hold).of_written rfl rfl fun i hwritten => ?_
      exact hwritten.modify (fun _ _ => rfl) hleases
  · intro event hevent
    rw [hspans]
    rcases List.mem_append.mp hevent with hold | hnew
    · exact h.numbered event hold
    · rw [List.mem_singleton.mp hnew]
      exact hm.below s hs

/-- A call to a lease keeps dirty regions guarded. -/
theorem lease (hm : m.Sound) (hguard : Guarded history m) (id : Nat) (c : LeaseCall) :
    Guarded (history ++ m.tagged id (c.events { lease := id, memory := m }))
      (c.after { lease := id, memory := m }).memory := by
  have heffect := c.effect { lease := id, memory := m }
  generalize c.after { lease := id, memory := m } = h,
    c.events { lease := id, memory := m } = events at heffect
  cases heffect with
  | nothing =>
    rw [tagged_nil, List.append_nil]
    exact hguard
  | @wrote l s _ v hp hstands hin =>
    obtain ⟨hl, hs, hsl⟩ := (Sound.parts?_eq_some_iff (h := ⟨id, m⟩) hm).mp hp
    rw [tagged_of_lease hl, List.map_singleton, ← hsl]
    exact hguard.wrote hm hl hs (Leasehold.lease?_of_stands hstands) rfl rfl
  | bound hp hstands hbound =>
    rw [tagged_nil, List.append_nil]
    refine hguard.of_same (Nat.le_refl _) (fun t ht _ => ⟨t, ht, rfl, rfl, rfl⟩) ?_
    intro i hwritten
    exact hwritten.modify (g := fun l => { l with bound := true }) (fun _ hw => hw) rfl
  | @sealed l s length hp hopen =>
    obtain ⟨hl, hs, hsl⟩ := (Sound.parts?_eq_some_iff (h := ⟨id, m⟩) hm).mp hp
    rw [tagged_of_lease hl, List.map_singleton, ← hsl]
    refine close (h := ⟨id, m⟩) (f := Leasehold.sealedSpan length) hm hguard hp (fun _ => rfl)
      (.inr rfl) fun hdirty => ?_
    rcases dirty_concat.mp hdirty with heq | ⟨hne, -⟩
    · cases (Prod.mk.inj heq).2
    · exact absurd rfl hne
  | poisoned hp hopen =>
    rw [tagged_nil]
    exact close (h := ⟨id, m⟩) (f := Leasehold.poisonedSpan) hm hguard hp (fun _ => rfl)
      (.inl rfl) fun _ => rfl
  | @released l s hp hopen =>
    obtain ⟨hl, hs, hsl⟩ := (Sound.parts?_eq_some_iff (h := ⟨id, m⟩) hm).mp hp
    rw [tagged_nil]
    refine close (h := ⟨id, m⟩) (f := Leasehold.releasedSpan l.written) hm hguard hp
      (fun _ => rfl) (.inl rfl) fun hdirty => ?_
    rw [List.append_nil] at hdirty
    show (s.poisoned || l.written) = true
    rcases hguard.barred s hs hdirty with hpoisoned | ⟨i, hi, l', hl', hwritten⟩
    · rw [hpoisoned, Bool.true_or]
    · -- the lease that the region records is the one that is given up
      have hrecorded := hm.recorded id l hl hopen s hs hsl
      obtain rfl : i = id := Option.some.inj (hi.symm.trans hrecorded)
      obtain rfl : l' = l := Option.some.inj (hl'.symm.trans hl)
      rw [hwritten, Bool.or_true]

end Guarded

/-- **Every change keeps dirty regions guarded.** -/
theorem Change.guarded {m m' : Memory} {history events : History} (h : Change m events m')
    (hm : m.Sound) (hguard : Guarded history m) : Guarded (history ++ events) m' := by
  cases h with
  | data hsame =>
    rw [List.append_nil]
    refine hguard.of_same (Nat.le_of_eq (by rw [hsame.spans])) ?_ ?_
    · intro t ht _
      exact ⟨t, hsame.spans ▸ ht, rfl, rfl, rfl⟩
    · intro i hwritten
      unfold Written
      rw [hsame.leases]
      exact hwritten
  | register hs _ _ =>
    rw [List.append_nil]
    exact hguard.register hs
  | mark id hf =>
    rw [List.append_nil]
    refine hguard.of_same (by simp [updateSpan]) ?_ fun _ hwritten => hwritten
    intro t ht _
    obtain ⟨s, hs, rfl⟩ := mem_updateSpan.mp ht
    refine ⟨s, hs, ?_⟩
    split
    · obtain ⟨length, running, heq⟩ := hf s
      rw [heq]
      exact ⟨rfl, rfl, rfl⟩
    · exact ⟨rfl, rfl, rfl⟩
  | grant hs hnone =>
    rw [List.append_nil]
    exact hguard.grant hm hs hnone
  | lease id c => exact hguard.lease hm id c

/-- Dirty regions are guarded along every path. -/
theorem Path.guarded {m₀ m : Memory} {history : History} (h : Path m₀ history m)
    (h₀ : m₀.Sound) (hspans : m₀.spans = #[]) : Guarded history m := by
  induction h with
  | start _ =>
    refine ⟨?_, ?_⟩
    · simp [hspans]
    · simp
  | step hpath hchange ih => exact hchange.guarded (hpath.sound h₀) ih

end Memory

/-- **A dirty region is always leased or poisoned.** -/
theorem Estate.Reachable.guarded {w : Estate} (hw : w.Reachable) {s : Span}
    (hs : s ∈ w.memory.spans) (hdirty : Dirty w.history s.id) :
    s.lease?.isSome = true ∨ s.poisoned = true := by
  obtain ⟨size, stack, m₀, hnew, hpath⟩ := hw.path
  have hguard := hpath.guarded (Memory.sound_of_new hnew) (Memory.new_ok hnew).1
  rcases hguard.barred s hs hdirty with hpoisoned | ⟨id, hid, -⟩
  · exact .inr hpoisoned
  · exact .inl (by rw [hid]; rfl)

end CellMachine
