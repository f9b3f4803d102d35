import Mathlib.Data.List.Nodup
import CellMachine.Proofs.Memory.Reachable

/-!
# Regions and their leases

Each region has a number of its own and records the lease that is open on it, if there is one. A
lease keeps the number of its region and whether it is closed. The module shows that the two tables
agree at all times, and what a memory keeps for good.

* `Memory.Sound` — numbers are distinct, and the open leases are exactly those that are recorded.
* `Memory.Path.sound` — **the tables of regions and leases always agree.**
* `Memory.Later` — what a memory keeps for good: its size, the place of each region, the region of
  each lease, and that a lease is bound or closed.
* `Memory.Path.bounds` — memory that is handed out ends where the stack begins or before, and
  the stack lies inside the memory.
* `Memory.Encloses` — a region lies inside the memory as a range of integers.
-/

namespace CellMachine

namespace Memory

/-- The tables of regions and leases agree. -/
structure Sound (m : Memory) : Prop where
  /-- No two regions have the same number. -/
  numbered : (m.spans.toList.map Span.id).Nodup
  below : ∀ s ∈ m.spans, s.id < m.spans.size
  /-- Every lease is one on a region. -/
  placed : ∀ (id : Nat) l, m.leases[id]? = some l → ∃ s ∈ m.spans, s.id = l.span
  /-- A lease that is not closed is recorded. -/
  recorded : ∀ (id : Nat) l, m.leases[id]? = some l → l.done = false →
    ∀ s ∈ m.spans, s.id = l.span → s.lease? = some id
  /-- A lease that is recorded is one on the region and not closed. -/
  standing : ∀ s ∈ m.spans, ∀ id : Nat, s.lease? = some id →
    ∃ l, m.leases[id]? = some l ∧ l.span = s.id ∧ l.done = false

/-- The regions after a change of the regions with one number. -/
theorem mem_updateSpan {m : Memory} {id : Nat} {f : Span → Span} {t : Span} :
    t ∈ (m.updateSpan id f).spans ↔ ∃ s ∈ m.spans, (if s.id = id then f s else s) = t := by
  unfold updateSpan
  exact Array.mem_map

/-- The regions after one more has taken its place. -/
theorem mem_register {m : Memory} {r : RoutineEntry} {low high : List Span}
    (hs : m.spans.toList = low ++ high) {t : Span} :
    t ∈ (m.registered r low high).spans ↔ t = m.newSpan r ∨ t ∈ m.spans := by
  have hspans : t ∈ m.spans ↔ t ∈ low ++ high := by rw [← hs, Array.mem_toList_iff]
  rw [hspans]
  simp [registered, or_left_comm]

/-- A change of regions that keeps their numbers keeps the list of the numbers. -/
theorem ids_updateSpan (m : Memory) (id : Nat) {f : Span → Span} (hf : ∀ s, (f s).id = s.id) :
    (m.updateSpan id f).spans.toList.map Span.id = m.spans.toList.map Span.id := by
  unfold updateSpan
  rw [Array.toList_map, List.map_map]
  refine List.map_congr_left fun s _ => ?_
  rw [Function.comp_apply]
  split
  · exact hf s
  · rfl

/-- A change of regions that keeps their numbers leaves a region to each number. -/
theorem exists_updateSpan {m : Memory} (id : Nat) {f : Span → Span} (hf : ∀ s, (f s).id = s.id)
    {number : Nat} (h : ∃ s ∈ m.spans, s.id = number) :
    ∃ t ∈ (m.updateSpan id f).spans, t.id = number := by
  obtain ⟨s, hs, rfl⟩ := h
  refine ⟨_, mem_updateSpan.mpr ⟨s, hs, rfl⟩, ?_⟩
  split
  · exact hf s
  · rfl

/-- A change of regions that keeps their numbers keeps them below the number of regions. -/
theorem below_updateSpan {m : Memory} (hm : ∀ s ∈ m.spans, s.id < m.spans.size) (id : Nat)
    {f : Span → Span} (hf : ∀ s, (f s).id = s.id) :
    ∀ t ∈ (m.updateSpan id f).spans, t.id < (m.updateSpan id f).spans.size := by
  intro t ht
  obtain ⟨s, hs, rfl⟩ := mem_updateSpan.mp ht
  have hsize : (m.updateSpan id f).spans.size = m.spans.size := Array.size_map
  rw [hsize]
  split
  · rw [hf]
    exact hm s hs
  · exact hm s hs

namespace Sound

variable {m m' : Memory}

/-- A region is known by its number. -/
theorem eq_of_id (hm : m.Sound) {s t : Span} (hs : s ∈ m.spans) (ht : t ∈ m.spans)
    (h : s.id = t.id) : s = t :=
  List.inj_on_of_nodup_map hm.numbered (Array.mem_toList_iff.mpr hs) (Array.mem_toList_iff.mpr ht) h

/-- The region with a number is the one that has it. -/
theorem span?_eq_some_iff (hm : m.Sound) {id : Nat} {s : Span} :
    m.span? id = some s ↔ s ∈ m.spans ∧ s.id = id := by
  unfold span?
  constructor
  · intro h
    exact ⟨Array.mem_of_find?_eq_some h, by simpa using Array.find?_some h⟩
  · rintro ⟨hs, rfl⟩
    cases hfind : m.spans.find? fun t => t.id == s.id with
    | none =>
      have hnone := Array.find?_eq_none.mp hfind s hs
      simp at hnone
    | some t =>
      have ht : t.id = s.id := by simpa using Array.find?_some hfind
      rw [hm.eq_of_id (Array.mem_of_find?_eq_some hfind) hs ht]

/-- The parts of a lease are the lease and the region that has its number. -/
theorem parts?_eq_some_iff {h : Leasehold} (hm : h.memory.Sound) {lease : Lease} {span : Span} :
    h.parts? = some (lease, span) ↔
      h.memory.leases[h.lease]? = some lease ∧ span ∈ h.memory.spans ∧ span.id = lease.span := by
  rw [Leasehold.parts?_eq_some_iff, hm.span?_eq_some_iff]

/-- A lease that is not closed stands. -/
theorem stands_of_open {h : Leasehold} (hm : h.memory.Sound) {lease : Lease} {span : Span}
    (hp : h.parts? = some (lease, span)) (hopen : lease.done = false) :
    h.stands lease span = true := by
  obtain ⟨hl, hs, hid⟩ := hm.parts?_eq_some_iff.mp hp
  have hrecorded := hm.recorded h.lease lease hl hopen span hs hid
  simp [Leasehold.stands, hopen, hrecorded]

/-- Only the tables count. -/
theorem of_tables (hm : m.Sound) (hspans : m'.spans = m.spans) (hleases : m'.leases = m.leases) :
    m'.Sound := by
  refine ⟨?_, ?_, ?_, ?_, ?_⟩
  · rw [hspans]
    exact hm.numbered
  · rw [hspans]
    exact hm.below
  · rw [hspans, hleases]
    exact hm.placed
  · rw [hspans, hleases]
    exact hm.recorded
  · rw [hspans, hleases]
    exact hm.standing

/-- A note on a lease that neither moves nor closes it. -/
theorem of_modify (hm : m.Sound) (id : Nat) {g : Lease → Lease}
    (hg : ∀ l, (g l).span = l.span ∧ (g l).done = l.done) (hspans : m'.spans = m.spans)
    (hleases : m'.leases = m.leases.modify id g) : m'.Sound := by
  -- every lease of the new table is one of the old table, on the same region and as open as before
  have hold : ∀ (i : Nat) l', m'.leases[i]? = some l' →
      ∃ l, m.leases[i]? = some l ∧ l'.span = l.span ∧ l'.done = l.done := by
    intro i l' hl'
    rw [hleases, Array.getElem?_modify] at hl'
    split at hl'
    · obtain ⟨l, hl, rfl⟩ := Option.map_eq_some_iff.mp hl'
      exact ⟨l, hl, (hg l).1, (hg l).2⟩
    · exact ⟨l', hl', rfl, rfl⟩
  refine ⟨?_, ?_, ?_, ?_, ?_⟩
  · rw [hspans]
    exact hm.numbered
  · rw [hspans]
    exact hm.below
  · intro i l' hl'
    obtain ⟨l, hl, hspan, -⟩ := hold i l' hl'
    rw [hspans, hspan]
    exact hm.placed i l hl
  · intro i l' hl' hdone s hs hid
    obtain ⟨l, hl, hspan, hsame⟩ := hold i l' hl'
    rw [hspans] at hs
    exact hm.recorded i l hl (hsame ▸ hdone) s hs (hid.trans hspan)
  · intro s hs i hi
    rw [hspans] at hs
    obtain ⟨l, hl, hspan, hdone⟩ := hm.standing s hs i hi
    rw [hleases, Array.getElem?_modify]
    by_cases heq : id = i
    · rw [if_pos heq, hl]
      exact ⟨g l, rfl, (hg l).1.trans hspan, (hg l).2.trans hdone⟩
    · rw [if_neg heq]
      exact ⟨l, hl, hspan, hdone⟩

/-- A note on a region that leaves its number and its lease alone. -/
theorem updateSpan (hm : m.Sound) (id : Nat) {f : Span → Span} (hid : ∀ s, (f s).id = s.id)
    (hlease : ∀ s, (f s).lease? = s.lease?) : (m.updateSpan id f).Sound := by
  have hold : ∀ t ∈ (m.updateSpan id f).spans,
      ∃ s ∈ m.spans, t.id = s.id ∧ t.lease? = s.lease? := by
    intro t ht
    obtain ⟨s, hs, rfl⟩ := mem_updateSpan.mp ht
    refine ⟨s, hs, ?_⟩
    split
    · exact ⟨hid s, hlease s⟩
    · exact ⟨rfl, rfl⟩
  refine ⟨?_, ?_, ?_, ?_, ?_⟩
  · rw [ids_updateSpan m id hid]
    exact hm.numbered
  · exact below_updateSpan hm.below id hid
  · intro i l hl
    exact exists_updateSpan id hid (hm.placed i l hl)
  · intro i l hl hdone t ht htl
    obtain ⟨s, hs, hts, hsame⟩ := hold t ht
    rw [hsame]
    exact hm.recorded i l hl hdone s hs (hts.symm.trans htl)
  · intro t ht i hi
    obtain ⟨s, hs, hts, hsame⟩ := hold t ht
    rw [hts]
    exact hm.standing s hs i (hsame ▸ hi)

/-- A new region has a new number and no lease. -/
theorem register (hm : m.Sound) {r : RoutineEntry} {low high : List Span}
    (hs : m.spans.toList = low ++ high) :
    (m.registered r low high).Sound := by
  have hmem := fun t => mem_register (r := r) hs (t := t)
  have hsize : (low ++ m.newSpan r :: high).length = m.spans.size + 1 := by
    rw [← Array.length_toList, hs]
    simp [Nat.add_assoc]
  refine ⟨?_, ?_, ?_, ?_, ?_⟩
  · have hperm : (low ++ m.newSpan r :: high).Perm (m.newSpan r :: m.spans.toList) := by
      rw [hs]
      exact List.perm_middle
    refine (hperm.map Span.id).nodup_iff.mpr (List.nodup_cons.mpr ⟨?_, hm.numbered⟩)
    intro hmem
    obtain ⟨s, hs', hid⟩ := List.mem_map.mp hmem
    have hlt := hm.below s (Array.mem_toList_iff.mp hs')
    rw [hid] at hlt
    exact Nat.lt_irrefl _ hlt
  · intro t ht
    show t.id < (low ++ m.newSpan r :: high).length
    rw [hsize]
    rcases (hmem t).mp ht with rfl | ht
    · exact Nat.lt_succ_self _
    · exact Nat.lt_succ_of_lt (hm.below t ht)
  · intro i l hl
    obtain ⟨s, hs', hsl⟩ := hm.placed i l hl
    exact ⟨s, (hmem s).mpr (.inr hs'), hsl⟩
  · intro i l hl hdone t ht htl
    rcases (hmem t).mp ht with rfl | ht
    · -- no lease is on a number that is given out only now
      obtain ⟨s, hs', hsl⟩ := hm.placed i l hl
      have hlt := hm.below s hs'
      rw [hsl, ← htl] at hlt
      exact absurd hlt (Nat.lt_irrefl _)
    · exact hm.recorded i l hl hdone t ht htl
  · intro t ht i hi
    rcases (hmem t).mp ht with rfl | ht
    · cases hi
    · exact hm.standing t ht i hi

/-- A new lease is recorded on its region, which has no other. -/
theorem grant (hm : m.Sound) {s : Span} (hs : s ∈ m.spans) (hnone : s.lease? = none) :
    (m.granted s).Sound := by
  -- the regions are those of before, and `s` alone records the new lease
  have hold : ∀ t ∈ (m.granted s).spans, ∃ u ∈ m.spans, t.id = u.id ∧
      t.lease? = if u.id = s.id then some m.leases.size else u.lease? := by
    intro t ht
    obtain ⟨u, hu, rfl⟩ := mem_updateSpan.mp ht
    refine ⟨u, hu, ?_⟩
    split
    · exact ⟨rfl, rfl⟩
    · exact ⟨rfl, rfl⟩
  have hleases : (m.granted s).leases = m.leases.push { span := s.id } := rfl
  refine ⟨?_, ?_, ?_, ?_, ?_⟩
  · unfold granted
    rw [ids_updateSpan]
    · exact hm.numbered
    · exact fun _ => rfl
  · exact below_updateSpan hm.below s.id fun _ => rfl
  · intro i l hl
    rw [hleases, Array.getElem?_push] at hl
    have hplaced : ∃ u ∈ m.spans, u.id = l.span := by
      split at hl
      · cases hl
        exact ⟨s, hs, rfl⟩
      · exact hm.placed i l hl
    unfold granted
    apply exists_updateSpan s.id
    · exact fun _ => rfl
    · exact hplaced
  · intro i l hl hdone t ht htl
    obtain ⟨u, hu, htu, hlease⟩ := hold t ht
    rw [hleases, Array.getElem?_push] at hl
    rw [hlease]
    split at hl
    · next hi =>
      cases hl
      rw [if_pos (htu.symm.trans htl), hi]
    · have hrecorded := hm.recorded i l hl hdone u hu (htu.symm.trans htl)
      by_cases hus : u.id = s.id
      · rw [hm.eq_of_id hu hs hus, hnone] at hrecorded
        cases hrecorded
      · rw [if_neg hus]
        exact hrecorded
  · intro t ht i hi
    obtain ⟨u, hu, htu, hlease⟩ := hold t ht
    rw [hlease] at hi
    rw [hleases, Array.getElem?_push, htu]
    by_cases hus : u.id = s.id
    · rw [if_pos hus] at hi
      cases hi
      rw [if_pos rfl, hus]
      exact ⟨_, rfl, rfl, rfl⟩
    · rw [if_neg hus] at hi
      obtain ⟨l, hl, hlu, hdone⟩ := hm.standing u hu i hi
      have hlt := (Array.getElem?_eq_some_iff.mp hl).1
      rw [if_neg (Nat.ne_of_lt hlt)]
      exact ⟨l, hl, hlu, hdone⟩

/-- A lease that is closed is no longer recorded. -/
theorem close {h : Leasehold} (hm : h.memory.Sound) {lease : Lease} {span : Span}
    (hp : h.parts? = some (lease, span)) (hopen : lease.done = false) {f : Span → Span}
    (hid : ∀ s, (f s).id = s.id) (hf : ∀ s, (f s).lease? = none) :
    (h.close span f).memory.Sound := by
  obtain ⟨hl, hspan, hsl⟩ := hm.parts?_eq_some_iff.mp hp
  have hrecorded := hm.recorded h.lease lease hl hopen span hspan hsl
  have hold : ∀ t ∈ (h.close span f).memory.spans, ∃ s ∈ h.memory.spans, t.id = s.id ∧
      t.lease? = if s.id = span.id then none else s.lease? := by
    intro t ht
    obtain ⟨s, hs, rfl⟩ := mem_updateSpan.mp ht
    refine ⟨s, hs, ?_⟩
    split
    · exact ⟨hid s, hf s⟩
    · exact ⟨rfl, rfl⟩
  have hleases (i : Nat) : (h.close span f).memory.leases[i]? =
      if h.lease = i then (h.memory.leases[i]?).map fun l => { l with done := true }
      else h.memory.leases[i]? := Array.getElem?_modify ..
  refine ⟨?_, ?_, ?_, ?_, ?_⟩
  · unfold Leasehold.close
    rw [ids_updateSpan]
    · exact hm.numbered
    · exact hid
  · exact below_updateSpan hm.below span.id hid
  · intro i l' hl'
    have hplaced : ∃ s ∈ h.memory.spans, s.id = l'.span := by
      rw [hleases] at hl'
      split at hl'
      · obtain ⟨l, hl, rfl⟩ := Option.map_eq_some_iff.mp hl'
        exact hm.placed i l hl
      · exact hm.placed i l' hl'
    exact exists_updateSpan span.id hid hplaced
  · intro i l hl' hdone t ht htl
    obtain ⟨s, hs, hts, hlease⟩ := hold t ht
    rw [hleases] at hl'
    split at hl'
    · obtain ⟨l, -, rfl⟩ := Option.map_eq_some_iff.mp hl'
      cases hdone
    · next hne =>
      have hsi := hm.recorded i l hl' hdone s hs (hts.symm.trans htl)
      by_cases hss : s.id = span.id
      · rw [hm.eq_of_id hs hspan hss, hrecorded] at hsi
        exact absurd (Option.some.inj hsi) hne
      · rw [hlease, if_neg hss]
        exact hsi
  · intro t ht i hi
    obtain ⟨s, hs, hts, hlease⟩ := hold t ht
    rw [hlease] at hi
    split at hi
    · cases hi
    · next hss =>
      obtain ⟨l, hli, hls, hdone⟩ := hm.standing s hs i hi
      have hne : h.lease ≠ i := by
        rintro rfl
        rw [hl] at hli
        cases hli
        exact hss (hls.symm.trans hsl.symm)
      rw [hleases, if_neg hne, hts]
      exact ⟨l, hli, hls, hdone⟩

/-- A call to a lease keeps the tables in agreement. -/
theorem lease (hm : m.Sound) (id : Nat) (c : LeaseCall) :
    (c.after { lease := id, memory := m }).memory.Sound := by
  have heffect := c.effect { lease := id, memory := m }
  generalize c.after { lease := id, memory := m } = h,
    c.events { lease := id, memory := m } = events at heffect
  cases heffect with
  | nothing => exact hm
  | wrote v hp hs hin =>
    refine hm.of_modify id (g := fun l => { l with written := true }) ?_ rfl rfl
    exact fun _ => ⟨rfl, rfl⟩
  | bound hp hs hbound =>
    refine hm.of_modify id (g := fun l => { l with bound := true }) ?_ rfl rfl
    exact fun _ => ⟨rfl, rfl⟩
  | sealed length hp hopen =>
    exact close (h := { lease := id, memory := m }) hm hp hopen (fun _ => rfl) fun _ => rfl
  | poisoned hp hopen =>
    exact close (h := { lease := id, memory := m }) hm hp hopen (fun _ => rfl) fun _ => rfl
  | released hp hopen =>
    exact close (h := { lease := id, memory := m }) hm hp hopen (fun _ => rfl) fun _ => rfl

end Sound

/-- Every change keeps the tables in agreement. -/
theorem Change.sound {m m' : Memory} {events : History} (h : Change m events m') (hm : m.Sound) :
    m'.Sound := by
  cases h with
  | data hsame => exact hm.of_tables hsame.spans hsame.leases
  | register hs _ _ => exact hm.register hs
  | mark id hf =>
    refine hm.updateSpan id ?_ ?_
    · intro s
      obtain ⟨length, running, heq⟩ := hf s
      rw [heq]
    · intro s
      obtain ⟨length, running, heq⟩ := hf s
      rw [heq]
  | grant hs hnone => exact hm.grant hs hnone
  | lease id c => exact hm.lease id c

/-- **The tables of regions and leases agree along every path.** -/
theorem Path.sound {m₀ m : Memory} {history : History} (h : Path m₀ history m)
    (h₀ : m₀.Sound) : m.Sound := by
  induction h with
  | start _ => exact h₀
  | step _ hchange ih => exact hchange.sound ih

/-- The tables of a new memory are empty. -/
theorem sound_of_new {size stack : Int} {m : Memory} (h : Memory.new size stack = .ok m) :
    m.Sound := by
  obtain ⟨hspans, hleases, -⟩ := new_ok h
  refine ⟨?_, ?_, ?_, ?_, ?_⟩
  · simp [hspans]
  · simp [hspans]
  · simp [hleases]
  · simp [hleases]
  · simp [hspans]

/-- **The tables of regions and leases always agree.** -/
theorem Reachable.sound {m : Memory} (h : m.Reachable) : m.Sound := by
  obtain ⟨size, stack, m₀, history, hnew, hpath⟩ := h.path
  exact hpath.sound (sound_of_new hnew)

/-! ### What is kept for good -/

/-- A memory that came out of another one, and what it has kept. -/
structure Later (m m' : Memory) : Prop where
  size : m'.cells.size = m.cells.size
  limit : m'.limit = m.limit
  next : m.next ≤ m.limit → m'.next ≤ m.limit
  spans : ∀ s ∈ m.spans, ∃ t ∈ m'.spans, t.id = s.id ∧ t.entry = s.entry
  leases : ∀ (id : Nat) l, m.leases[id]? = some l → ∃ l', m'.leases[id]? = some l' ∧
    l'.span = l.span ∧ (l.bound = true → l'.bound = true) ∧ (l.done = true → l'.done = true)

namespace Later

/-- Nothing has happened. -/
theorem refl (m : Memory) : m.Later m :=
  ⟨rfl, rfl, id, fun s hs => ⟨s, hs, rfl, rfl⟩, fun _ l hl => ⟨l, hl, rfl, id, id⟩⟩

/-- What is kept twice is kept. -/
theorem trans {m₁ m₂ m₃ : Memory} (h₁ : m₁.Later m₂) (h₂ : m₂.Later m₃) : m₁.Later m₃ where
  size := h₂.size.trans h₁.size
  limit := h₂.limit.trans h₁.limit
  next h := by
    have hlimit := h₁.limit
    rw [← hlimit]
    exact h₂.next (hlimit ▸ h₁.next h)
  spans s hs := by
    obtain ⟨t, ht, htid, htentry⟩ := h₁.spans s hs
    obtain ⟨u, hu, huid, huentry⟩ := h₂.spans t ht
    exact ⟨u, hu, huid.trans htid, huentry.trans htentry⟩
  leases id l hl := by
    obtain ⟨l', hl', hspan', hbound', hdone'⟩ := h₁.leases id l hl
    obtain ⟨l'', hl'', hspan'', hbound'', hdone''⟩ := h₂.leases id l' hl'
    exact ⟨l'', hl'', hspan''.trans hspan', fun h => hbound'' (hbound' h),
      fun h => hdone'' (hdone' h)⟩

/-- A change of regions that moves none of them. -/
theorem updateSpan (m : Memory) (id : Nat) {f : Span → Span} (hid : ∀ s, (f s).id = s.id)
    (hentry : ∀ s, (f s).entry = s.entry) : m.Later (m.updateSpan id f) := by
  refine ⟨rfl, rfl, fun h => h, ?_, fun _ l hl => ⟨l, hl, rfl, fun h => h, fun h => h⟩⟩
  intro s hs
  refine ⟨_, mem_updateSpan.mpr ⟨s, hs, rfl⟩, ?_⟩
  split
  · exact ⟨hid s, hentry s⟩
  · exact ⟨rfl, rfl⟩

/-- A note on a lease that neither moves nor frees nor reopens it. -/
theorem of_modify {m m' : Memory} (id : Nat) {g : Lease → Lease} (hspan : ∀ l, (g l).span = l.span)
    (hbound : ∀ l, l.bound = true → (g l).bound = true)
    (hdone : ∀ l, l.done = true → (g l).done = true) (hm' : m'.leases = m.leases.modify id g)
    (hsame : m'.spans = m.spans ∧ m'.limit = m.limit ∧ m'.next = m.next ∧
      m'.cells.size = m.cells.size) : m.Later m' := by
  obtain ⟨hspans, hlimit, hnext, hsize⟩ := hsame
  refine ⟨hsize, hlimit, ?_, ?_, ?_⟩
  · rw [hnext]
    exact fun h => h
  · intro s hs
    exact ⟨s, hspans ▸ hs, rfl, rfl⟩
  · intro i l hl
    rw [hm', Array.getElem?_modify]
    by_cases hi : id = i
    · rw [if_pos hi, hl]
      exact ⟨g l, rfl, hspan l, hbound l, hdone l⟩
    · rw [if_neg hi]
      exact ⟨l, hl, rfl, fun h => h, fun h => h⟩

/-- A lease that is closed stays where it is. -/
theorem close (h : Leasehold) (span : Span) {f : Span → Span} (hid : ∀ s, (f s).id = s.id)
    (hentry : ∀ s, (f s).entry = s.entry) : h.memory.Later (h.close span f).memory := by
  have hdone : h.memory.Later { h.memory with leases := h.memory.leases.modify h.lease fun l =>
      { l with done := true } } := by
    refine of_modify h.lease (g := fun l => { l with done := true }) ?_ ?_ ?_ rfl
      ⟨rfl, rfl, rfl, rfl⟩
    · exact fun _ => rfl
    · exact fun _ hb => hb
    · exact fun _ _ => rfl
  exact hdone.trans (updateSpan _ span.id hid hentry)

/-- What a call to a lease keeps. -/
theorem lease (m : Memory) (id : Nat) (c : LeaseCall) :
    m.Later (c.after { lease := id, memory := m }).memory := by
  have heffect := c.effect { lease := id, memory := m }
  generalize c.after { lease := id, memory := m } = h,
    c.events { lease := id, memory := m } = events at heffect
  cases heffect with
  | nothing => exact refl m
  | wrote v hp hs hin =>
    refine of_modify id (g := fun l => { l with written := true }) ?_ ?_ ?_ rfl
      ⟨rfl, rfl, rfl, Array.size_setIfInBounds⟩
    · exact fun _ => rfl
    · exact fun _ hb => hb
    · exact fun _ hd => hd
  | bound hp hs hbound =>
    refine of_modify id (g := fun l => { l with bound := true }) ?_ ?_ ?_ rfl
      ⟨rfl, rfl, rfl, rfl⟩
    · exact fun _ => rfl
    · exact fun _ _ => rfl
    · exact fun _ hd => hd
  | sealed length hp hdone => exact close { lease := id, memory := m } _ (fun _ => rfl) fun _ => rfl
  | poisoned hp hdone => exact close { lease := id, memory := m } _ (fun _ => rfl) fun _ => rfl
  | released hp hdone => exact close { lease := id, memory := m } _ (fun _ => rfl) fun _ => rfl

/-- A new lease takes nothing from the others. -/
theorem grant (m : Memory) (s : Span) : m.Later (m.granted s) := by
  refine trans ?_ (updateSpan { m with leases := m.leases.push { span := s.id } } s.id ?_ ?_)
  · refine ⟨rfl, rfl, fun h => h, fun t ht => ⟨t, ht, rfl, rfl⟩, ?_⟩
    intro i l hl
    have hlt := (Array.getElem?_eq_some_iff.mp hl).1
    refine ⟨l, ?_, rfl, fun h => h, fun h => h⟩
    rw [Array.getElem?_push, if_neg (Nat.ne_of_lt hlt)]
    exact hl
  · exact fun _ => rfl
  · exact fun _ => rfl

end Later

/-- What every change keeps. -/
theorem Change.later {m m' : Memory} {events : History} (h : Change m events m') : m.Later m' := by
  cases h with
  | data hsame =>
    refine ⟨hsame.size, hsame.limit, hsame.next, ?_, ?_⟩
    · intro s hs
      exact ⟨s, hsame.spans ▸ hs, rfl, rfl⟩
    · intro id l hl
      exact ⟨l, hsame.leases ▸ hl, rfl, fun h => h, fun h => h⟩
  | register hs _ _ _ =>
    refine ⟨rfl, rfl, fun h => h, ?_, fun _ l hl => ⟨l, hl, rfl, fun h => h, fun h => h⟩⟩
    exact fun s hmem => ⟨s, (mem_register hs).mpr (.inr hmem), rfl, rfl⟩
  | mark id hf =>
    refine .updateSpan m id ?_ ?_
    · intro s
      obtain ⟨length, running, heq⟩ := hf s
      rw [heq]
    · intro s
      obtain ⟨length, running, heq⟩ := hf s
      rw [heq]
      rfl
  | grant _ _ => exact .grant m _
  | lease id c => exact .lease m id c

/-- **What a memory keeps for good.** -/
theorem Path.later {m₀ m : Memory} {history : History} (h : Path m₀ history m) : m₀.Later m := by
  induction h with
  | start _ => exact .refl m₀
  | step _ hchange ih => exact ih.trans hchange.later

/-- **Memory that is handed out ends where the stack begins or before**, and the stack lies inside
the memory. -/
theorem Path.bounds {size stack : Int} {m₀ m : Memory} {history : History}
    (h : Path m₀ history m) (hnew : Memory.new size stack = .ok m₀) :
    m.next ≤ m.limit ∧ 0 < m.limit.toInt ∧ m.limit.toInt < m.cells.size ∧
      m.cells.size ≤ maxCells := by
  obtain ⟨-, -, hnext, hpos, hlt, hmax⟩ := new_ok hnew
  have hlater := h.later
  have hnext₀ : m₀.next ≤ m₀.limit := by
    rw [hnext, Int64.le_iff_toInt_le]
    exact Int.le_of_lt hpos
  rw [hlater.limit, hlater.size]
  exact ⟨hlater.next hnext₀, hpos, hlt, hmax⟩

/-! ### Where regions lie -/

/-- A region is a range of integers inside the memory: its end does not wrap around. -/
structure Encloses (m : Memory) (s : Span) : Prop where
  base : 0 ≤ s.base.toInt
  capacity : 0 ≤ s.capacity.toInt
  limit : s.base.toInt + s.capacity.toInt ≤ m.cells.size

/-- A sum of addresses that is not too large does not wrap around. -/
theorem toInt_add_of_le {a b : Addr} (ha : 0 ≤ a.toInt) (hb : 0 ≤ b.toInt)
    (hsum : a.toInt + b.toInt ≤ maxCells) : (a + b).toInt = a.toInt + b.toInt := by
  have hmax : (maxCells : Int) = 35184372088832 := by decide
  rw [Int64.toInt_add]
  exact Int.bmod_eq_of_le (by omega) (by omega)

namespace Encloses

variable {m : Memory} {s : Span}

/-- The address of a cell of the region. -/
theorem toInt_addr (h : m.Encloses s) (hsize : m.cells.size ≤ maxCells) {offset : Nat}
    (ho : (offset : Int) < s.capacity.toInt) :
    (s.base + Int64.ofInt offset).toInt = s.base.toInt + offset := by
  have hmax : (maxCells : Int) = 35184372088832 := by decide
  have hlimit := h.limit
  have hbase := h.base
  have hoffset : (Int64.ofInt offset).toInt = offset :=
    Int64.toInt_ofInt_of_le (by omega) (by omega)
  rw [toInt_add_of_le h.base (by omega) (by omega), hoffset]

/-- The cells of the region are cells of the memory. -/
theorem exists_cell (h : m.Encloses s) {offset : Nat} (ho : (offset : Int) < s.capacity.toInt) :
    ∃ v, m.cells[s.base.toInt.toNat + offset]? = some v := by
  have hbase := h.base
  have hlimit := h.limit
  have hbound : s.base.toInt.toNat + offset < m.cells.size := by omega
  exact ⟨_, Array.getElem?_eq_getElem hbound⟩

/-- The end of the region. -/
theorem toInt_limit (h : m.Encloses s) (hsize : m.cells.size ≤ maxCells) :
    s.limit.toInt = s.base.toInt + s.capacity.toInt := by
  have hlimit := h.limit
  exact toInt_add_of_le h.base h.capacity (by omega)

/-- The addresses that lie in the region. -/
theorem contains_iff (h : m.Encloses s) (hsize : m.cells.size ≤ maxCells) {a : Addr} :
    s.contains a = true ↔
      s.base.toInt ≤ a.toInt ∧ a.toInt < s.base.toInt + s.capacity.toInt := by
  unfold Span.contains
  rw [Bool.and_eq_true, decide_eq_true_iff, decide_eq_true_iff, Int64.le_iff_toInt_le,
    Int64.lt_iff_toInt_lt, h.toInt_limit hsize]

end Encloses

end Memory

end CellMachine
