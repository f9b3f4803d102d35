import Mathlib.Data.List.Pairwise
import CellMachine.Proofs.Patch.Blind
import CellMachine.Proofs.Patch.Effect

/-!
# Patches of different regions commute

A patch depends on the globals, on the place of its region and on nothing else that another patch
can change. So two patches of different regions succeed in one order if they do in the other, and
leave the same memory. This holds for ranges of cells, too, that become regions on the way. And a
patch that succeeds does so again, and the second time nothing is changed.

* `Leasehold.Alike` — two leased regions stand in the same place, in memories of one size.
* `Patch.apply_ok_of_opens` — **whether a patch succeeds, and what it emits, depends on the place of
  its region and on the globals.**
* `Patch.Rewrites.opens_again`, `Patch.Rewrites.exists_opens` — what a target opens after a patch of
  another region, and what it opened before.
* `Memory.SameState` — two memories are the same but for numbers that nobody sees.
* `Patched.applyAll_comm` — **patches of different regions commute, and patches are idempotent.**
-/

namespace CellMachine

open CellMachine.Action

namespace Leasehold

variable {h h' : Leasehold}

/-- Two leased regions stand in the same place, in memories of one size, and the leases are in the
same state. Nothing is said of cells. -/
inductive Alike (h h' : Leasehold) : Prop
  | intro {l l' : Lease} {s s' : Span} :
    h.parts? = some (l, s) → h'.parts? = some (l', s') → s'.entry = s.entry → l'.done = l.done →
    h'.stands l' s' = h.stands l s → h'.memory.cells.size = h.memory.cells.size → Alike h h'

/-- A region is named in messages by its place. -/
theorem label_of_entry {s s' : Span} (h : s'.entry = s.entry) : s'.label = s.label := by
  have hname : s'.name = s.name := congrArg RoutineEntry.name h
  have hbase : s'.base = s.base := congrArg RoutineEntry.base h
  unfold Span.label
  rw [hname, hbase]

/-- A lease that is closed stands no more. -/
theorem stands_close {l : Lease} (span s : Span) (f : Span → Span) (hdone : l.done = true) :
    (h.close span f).stands l s = false := by
  unfold Leasehold.stands
  rw [hdone]
  rfl

/-- Closing both leases. -/
theorem alike_close {l l' : Lease} {s s' : Span} {f : Span → Span}
    (hp : h.parts? = some (l, s)) (hp' : h'.parts? = some (l', s')) (hentry : s'.entry = s.entry)
    (hsize : h'.memory.cells.size = h.memory.cells.size)
    (hf : ∀ s, (f s).id = s.id ∧ (f s).entry = s.entry) :
    Alike (h.close s f) (h'.close s' f) := by
  refine .intro (parts?_close hp fun s => (hf s).1) (parts?_close hp' fun s => (hf s).1) ?_ rfl ?_
    hsize
  · rw [(hf s').2, (hf s).2, hentry]
  · rw [stands_close _ _ _ rfl, stands_close _ _ _ rfl]

/-- A dynamic emission starts with the same context. -/
theorem Alike.fresh (ha : Alike h h') : Context.fresh .dynamic h' = Context.fresh .dynamic h := by
  cases ha with
  | @intro l l' s s' hp hp' hentry =>
    have hcapacity : Region.capacity h' = Region.capacity h := by
      rw [capacity_of_parts hp, capacity_of_parts hp',
        show s'.capacity = s.capacity from congrArg RoutineEntry.capacity hentry]
    unfold Context.fresh
    rw [hcapacity]
    rfl

/-- **What an emission does to a leased region depends on its place and the state of its lease.** -/
theorem twinned_alike : Region.Twinned fun _ => Alike where
  base {n h h'} ha := by
    cases ha with
    | intro hp hp' hentry =>
      rw [base_of_parts hp, base_of_parts hp']
      exact congrArg RoutineEntry.base hentry
  forget ha := ha
  store {n k h h'} offset v ha _ := by
    show InStepTo (fun _ => Alike) k (Leasehold.store offset v h) (Leasehold.store offset v h')
    cases ha with
    | @intro l l' s s' hp hp' hentry hdone hstands hsize =>
      have hbase : s'.base = s.base := congrArg RoutineEntry.base hentry
      have hsame : Alike h h' := .intro hp hp' hentry hdone hstands hsize
      by_cases hs : h.stands l s
      · have hs' : h'.stands l' s' := hstands.trans hs
        by_cases hin : h.memory.inBounds (s.base + Int64.ofInt offset)
        · have hin' : h'.memory.inBounds (s'.base + Int64.ofInt offset) := by
            unfold Memory.inBounds at hin ⊢
            rwa [hbase, hsize]
          rw [store_of_inBounds hp hs hin, store_of_inBounds hp' hs' hin']
          refine .ok (.intro (parts?_wrote hp _ v) (parts?_wrote hp' _ v) hentry hdone hstands ?_)
          unfold wrote
          dsimp only
          rw [Array.size_setIfInBounds, Array.size_setIfInBounds, hsize]
        · have hin' : ¬h'.memory.inBounds (s'.base + Int64.ofInt offset) := by
            unfold Memory.inBounds at hin ⊢
            rwa [hbase, hsize]
          rw [store_of_outside hp hs hin, store_of_outside hp' hs' hin']
          exact .error ⟨rfl, hsame⟩
      · have hs : h.stands l s = false := by simpa using hs
        rw [store_of_fallen hp hs, store_of_fallen hp' (hstands.trans hs), label_of_entry hentry]
        exact .error ⟨rfl, hsame⟩
  sealUp {n h h'} length ha := by
    show InStepTo (fun _ => Alike) n (Leasehold.sealUp length h) (Leasehold.sealUp length h')
    cases ha with
    | @intro l l' s s' hp hp' hentry hdone hstands hsize =>
      rw [sealUp_of_parts hp, sealUp_of_parts hp', hdone, label_of_entry hentry]
      by_cases hclosed : l.done
      · rw [if_pos hclosed, if_pos hclosed]
        exact .error ⟨rfl, .intro hp hp' hentry hdone hstands hsize⟩
      · rw [if_neg hclosed, if_neg hclosed]
        exact .ok (alike_close hp hp' hentry hsize (f := sealedSpan length) fun _ => ⟨rfl, rfl⟩)
  poison {n h h'} ha := by
    show InStepTo (fun _ => Alike) n (Leasehold.poison h) (Leasehold.poison h')
    cases ha with
    | @intro l l' s s' hp hp' hentry hdone hstands hsize =>
      rw [poison_of_parts hp, poison_of_parts hp', hdone, label_of_entry hentry]
      by_cases hclosed : l.done
      · rw [if_pos hclosed, if_pos hclosed]
        exact .error ⟨rfl, .intro hp hp' hentry hdone hstands hsize⟩
      · rw [if_neg hclosed, if_neg hclosed]
        exact .ok (alike_close hp hp' hentry hsize fun _ => ⟨rfl, rfl⟩)

end Leasehold

/-! ### What a patch depends on -/

namespace Patch

open CellMachine.Memory CellMachine.Leasehold CellMachine.Emission

variable {m m' m₁ : Memory} {p : Patch} {s s' : Span} {routine : Routine}

/-- Memories in which a target opens a region in the same place are alike through its lease. -/
theorem alike_opened (hm : m.Settled) (hm' : m'.Settled) (hsame : m.SameHoldings m')
    (htarget : p.target.Exact m) (htarget' : p.target.Exact m') (hopens : m.Opens p.target s)
    (hopens' : m'.Opens p.target s') (hentry : s'.entry = s.entry) :
    Alike (opened m s) (opened m' s') := by
  have hheld := held_opened hm htarget hopens
  have hheld' := held_opened hm' htarget' hopens'
  refine .intro hheld.parts hheld'.parts hentry rfl ?_ ?_
  · rw [hheld.stands, hheld'.stands]
  · rw [hheld.size, hheld'.size, hsame.size]

/-- **Whether a patch succeeds, and what it emits, depends on the place of its region and on the
globals.** -/
theorem apply_ok_of_opens (hm : m.Settled) (hm' : m'.Settled) (hsame : m.SameHoldings m')
    (htarget : p.target.Exact m) (htarget' : p.target.Exact m') (hopens : m.Opens p.target s)
    (hopens' : m'.Opens p.target s') (hentry : s'.entry = s.entry)
    (h : p.apply m = .ok routine m₁) : ∃ m₁', p.apply m' = .ok routine m₁' := by
  have halike := alike_opened hm hm' hsame htarget htarget' hopens hopens' hentry
  have hstart : Paced (fun _ => Alike) (Emission.start .dynamic (opened m s))
      (Emission.start .dynamic (opened m' s')) := by
    unfold Emission.start
    rw [halike.fresh]
    exact .intro rfl halike
  have hwrite := write_twinned twinned_alike p (globalSymbol m.addresses) hstart
  rw [apply_of_opens hm htarget hopens] at h
  rw [apply_of_opens hm' htarget' hopens', hsame.addresses]
  generalize p.write (globalSymbol m.addresses) (Emission.start .dynamic (opened m s)) = o,
    p.write (globalSymbol m.addresses) (Emission.start .dynamic (opened m' s')) = o' at hwrite h
  cases hwrite with
  | ok _ =>
    cases h
    exact ⟨_, rfl⟩
  | error _ => cases h

end Patch

/-! ### Regions that another patch leaves -/

namespace Memory

variable {m m' : Memory} {target : PatchTarget} {s t : Span}

/-- The region that a target opens later: the same one, or a new one in the same place. -/
def again (m m' : Memory) (t : Span) : Span := if t ∈ m.spans then t else m'.newSpan t.entry

/-- It stands in the same place. -/
theorem entry_again (m m' : Memory) (t : Span) : (m.again m' t).entry = t.entry := by
  unfold again
  split <;> rfl

namespace Opens

/-- A region that a target opens is one of the memory, or nothing is in its way. -/
theorem mem_or_clear (h : m.Opens target s) : s ∈ m.spans ∨ ¬m.Blocked s.entry := by
  cases h with
  | region hname => exact .inl (mem_of_spanNamed? hname)
  | range hs => exact .inl hs
  | fresh _ hclear => exact .inr hclear

/-- A new region is one without a name, which is not empty. -/
theorem eq_newSpan (h : m.Opens target s) (hs : s ∉ m.spans) :
    s = m.newSpan s.entry ∧ 0 < s.capacity.toInt := by
  cases h with
  | region hname => exact absurd (mem_of_spanNamed? hname) hs
  | range hmem => exact absurd hmem hs
  | fresh hrange => exact ⟨rfl, hrange.pos⟩

/-- A new region reaches over its base. -/
theorem lt_limit (h : m.Opens target s) (hm : m.Settled) (htarget : target.Exact m)
    (hs : s ∉ m.spans) : s.entry.base < s.entry.limit :=
  hm.lt_limit (h.encloses hm htarget) (h.eq_newSpan hs).2

/-- A target stands for the region that it opens. -/
theorem designates (h : m.Opens target s) (hm : m.Settled) (htarget : target.Exact m) :
    target.Designates m s := by
  have hlimit := h.lt_limit hm htarget
  cases h with
  | region hname => exact .region hname
  | range hs => exact .range hs
  | @fresh base capacity hrange hclear =>
    refine .fresh ?_
    rintro t ht ⟨rfl, rfl⟩
    have hentry : t.entry ∈ m.entries := mem_entries_of_mem ht
    exact hclear ⟨_, hentry, .inr ⟨Int64.le_refl _, hlimit (newSpan_not_mem hm.tables _)⟩⟩

/-- So does its range. -/
theorem range_designates (h : m.Opens target s) (hm : m.Settled) (htarget : target.Exact m) :
    (PatchTarget.range s.base s.capacity).Designates m s := by
  have hdesignates := h.designates hm htarget
  cases h with
  | region hname => exact .range (mem_of_spanNamed? hname)
  | range => exact hdesignates
  | fresh => exact hdesignates

end Opens

end Memory

namespace Patch

open CellMachine.Memory

variable {m m' : Memory} {p : Patch} {target : PatchTarget} {s t t' : Span} {written : List Cell}

namespace Rewrites

/-- No other region has the number of the region that is patched. -/
theorem id_ne (h : p.Rewrites m s written m') (ht : t ∈ m.spans) (hne : t ≠ s) : t.id ≠ s.id := by
  intro hid
  have htables := (h.opens.having_tables h.settled h.exact).2.1
  exact hne (htables.eq_of_id (mem_having.mpr (.inr ht)) (mem_having.mpr (.inl rfl)) hid)

/-- Another region stands apart from the region that is patched. -/
theorem apart (h : p.Rewrites m s written m') (ht : t ∈ m.spans) (hne : t ≠ s) :
    t.entry.Apart s.entry := by
  have hordered := (h.opens.having_tables h.settled h.exact).1
  have hpairwise : (m.having s).spans.toList.Pairwise fun a b => a.entry.Apart b.entry :=
    (List.pairwise_map.mp hordered).imp fun hbefore => .inl hbefore
  have hmem {u : Span} (hu : u = s ∨ u ∈ m.spans) : u ∈ (m.having s).spans.toList :=
    Array.mem_toList_iff.mpr (mem_having.mpr hu)
  have : Std.Symm fun a b : Span => a.entry.Apart b.entry := ⟨fun _ _ hab => hab.symm⟩
  exact hpairwise.forall (hmem (.inr ht)) (hmem (.inl rfl)) hne

/-- A place that is in nothing's way keeps being so, if the region that is patched is not in the
way. -/
theorem blocked_iff (h : p.Rewrites m s written m') {r : RoutineEntry} :
    m'.Blocked r ↔ s.entry.Blocks r ∨ m.Blocked r := by
  unfold Blocked
  rw [h.entries]
  unfold Memory.entries
  simp only [List.mem_map, Array.mem_toList_iff, mem_having]
  constructor
  · rintro ⟨_, ⟨u, rfl | hu, rfl⟩, hblocks⟩
    · exact .inl hblocks
    · exact .inr ⟨_, ⟨u, hu, rfl⟩, hblocks⟩
  · rintro (hblocks | ⟨_, ⟨u, hu, rfl⟩, hblocks⟩)
    · exact ⟨_, ⟨s, .inl rfl, rfl⟩, hblocks⟩
    · exact ⟨_, ⟨u, .inr hu, rfl⟩, hblocks⟩

/-- The same ranges can be asked for. -/
theorem handsOut_iff (h : p.Rewrites m s written m') {base : Addr} {capacity : Int64} :
    m'.HandsOut base capacity ↔ m.HandsOut base capacity := by
  unfold HandsOut
  rw [h.holdings.next]

/-- The same ranges are ranges of cells. -/
theorem exact_after (h : p.Rewrites m s written m') (htarget : target.Exact m) :
    target.Exact m' := by
  cases target with
  | region name => trivial
  | range base capacity =>
    exact ⟨htarget.base, htarget.capacity, h.holdings.size ▸ htarget.limit⟩

/-- **What a target opens after a patch of another region**, if it opened a region before. -/
theorem opens_again (h : p.Rewrites m s written m') (ht : m.Opens target t) (hne : t ≠ s)
    (hclear : t ∉ m.spans → ¬s.entry.Blocks t.entry) : m'.Opens target (m.again m' t) := by
  unfold again
  cases ht with
  | region hname hidle =>
    have hmem := mem_of_spanNamed? hname
    rw [if_pos hmem]
    refine .region ?_ hidle
    rw [h.spanNamed?, hname, Option.map_some, if_neg (h.id_ne hmem hne)]
  | range hmem hrange hidle =>
    rw [if_pos hmem]
    exact .range (h.mem_of_ne hmem (h.id_ne hmem hne)) (h.handsOut_iff.mpr hrange) hidle
  | fresh hrange hfree =>
    have hnew := newSpan_not_mem h.settled.tables
    rw [if_neg (hnew _)]
    refine .fresh (h.handsOut_iff.mpr hrange) ?_
    rw [h.blocked_iff]
    exact fun hblocked => hblocked.elim (hclear (hnew _)) hfree

/-- **What a target opened before a patch of another region**, if it opens a region afterwards. -/
theorem exists_opens (h : p.Rewrites m s written m') (hexact : target.Exact m)
    (ht' : m'.Opens target t')
    (hother : ∀ u, p.target.Designates m u → ¬target.Designates m u) :
    ∃ t, m.Opens target t ∧ t ≠ s ∧ t' = m.again m' t ∧
      (t ∉ m.spans → ¬s.entry.Blocks t.entry) := by
  have hp := h.opens.designates h.settled h.exact
  have hne {t : Span} (ht : m.Opens target t) : t ≠ s := by
    rintro rfl
    exact hother t hp (ht.designates h.settled hexact)
  cases ht' with
  | @region name t' hname hidle =>
    rw [h.spanNamed?] at hname
    obtain ⟨t, hfound, rfl⟩ := Option.map_eq_some_iff.mp hname
    have hmem := mem_of_spanNamed? hfound
    have hopens : m.Opens (.region name) t := by
      refine .region hfound ?_
      split at hidle
      · exact hidle
      · exact hidle
    have hid := h.id_ne hmem (hne hopens)
    refine ⟨t, hopens, hne hopens, ?_, fun hnew => absurd hmem hnew⟩
    rw [if_neg hid, again, if_pos hmem]
  | range hmem hrange hidle =>
    have hrange' := h.handsOut_iff.mp hrange
    rcases h.eq_or_mem hmem with rfl | ⟨hmem', hid⟩
    · exact absurd (h.opens.range_designates h.settled h.exact) (hother s hp)
    · have hopens : m.Opens (.range t'.base t'.capacity) t' := .range hmem' hrange' hidle
      refine ⟨t', hopens, hne hopens, ?_, fun hnew => absurd hmem' hnew⟩
      rw [again, if_pos hmem']
  | @fresh base capacity hrange hclear =>
    rw [h.blocked_iff, not_or] at hclear
    have hopens := Opens.fresh (h.handsOut_iff.mp hrange) hclear.2
    refine ⟨_, hopens, hne hopens, ?_, fun _ => hclear.1⟩
    rw [again, if_neg (newSpan_not_mem h.settled.tables _)]
    rfl

end Rewrites

end Patch

/-! ### Two orders -/

/-- A region without its number. -/
def Span.unnumbered (s : Span) : Span := { s with id := 0 }

namespace Memory

/-- Two memories are the same but for the numbers of regions, which nobody sees, and for the record
of leases, which are closed. -/
structure SameState (m m' : Memory) : Prop where
  cells : m'.cells = m.cells
  next : m'.next = m.next
  limit : m'.limit = m.limit
  names : m'.names = m.names
  addresses : m'.addresses = m.addresses
  order : m'.order = m.order
  spans : m'.spans.map Span.unnumbered = m.spans.map Span.unnumbered

end Memory

namespace Patch

open CellMachine.Memory CellMachine.Leasehold

variable {m m₁ m₂ m₁' m₂' : Memory} {p q : Patch} {s t : Span} {a b : List Cell}

namespace Rewrites

/-- A region that is not changed by the change of another one. -/
theorem again_of_mem (ht : t ∈ m.spans) : m.again m₁ t = t := if_pos ht

/-- The region that a patch opens is the same after a patch of a region that the memory has. -/
theorem again_eq_self (hp : p.Rewrites m s a m₁) (hq : q.Rewrites m t b m₁') (ht : t ∈ m.spans) :
    m.again m₁' s = s := by
  unfold again
  split
  · rfl
  · next hs =>
    have hsize : m₁'.spans.size = m.spans.size := by
      rw [hq.spans, Array.size_map, having_of_mem ht]
    rw [newSpan, hsize]
    exact (hp.opens.eq_newSpan hs).1.symm

/-- A region takes its place before a change of another one or after it. -/
theorem having_after (hp : p.Rewrites m s a m₁) (hq : q.Rewrites m t b m₁') (ht : t ∈ m.spans)
    (hid : s.id ≠ t.id) :
    (m₁'.having s).spans = (m.having s).spans.map fun u =>
      if u.id = t.id then sealedSpan b.length u else u := by
  have hspans := hq.spans
  rw [having_of_mem ht] at hspans
  by_cases hs : s ∈ m.spans
  · rw [having_of_mem hs, having_of_mem (hq.mem_of_ne hs hid), hspans]
  · have hs' : s ∉ m₁'.spans := by
      intro hmem
      rcases hq.eq_or_mem hmem with rfl | ⟨hmem, -⟩
      · exact hid rfl
      · exact hs hmem
    unfold having
    rw [if_neg hs, if_neg hs', hspans]
    show (place s (Array.map _ m.spans).toList).toArray = _
    rw [Array.toList_map, List.map_toArray, map_place]
    · rw [if_neg hid]
    · intro u
      split <;> rfl

/-- **Two patches of different regions, one of which the memory has, leave the same regions in both
orders.** -/
theorem spans_comm_of_mem (hp : p.Rewrites m s a m₁) (hq : q.Rewrites m₁ (m.again m₁ t) b m₂)
    (hq' : q.Rewrites m t b m₁') (hp' : p.Rewrites m₁' (m.again m₁' s) a m₂')
    (ht : t ∈ m.spans) (hne : t ≠ s) : m₂'.spans = m₂.spans := by
  have hid := hp.id_ne ht hne
  have hspans := hq.spans
  have hspans' := hp'.spans
  rw [again_of_mem ht, having_of_mem (hp.mem_of_ne ht hid), hp.spans] at hspans
  rw [again_eq_self hp hq' ht, having_after hp hq' ht hid.symm] at hspans'
  rw [hspans, hspans', Array.map_map, Array.map_map]
  refine Array.map_congr_left fun u _ => ?_
  rw [Function.comp_apply, Function.comp_apply]
  -- at most one of the two regions is meant
  by_cases hus : u.id = s.id
  · have hut : u.id ≠ t.id := fun heq => hid (heq.symm.trans hus)
    have hut' : (sealedSpan a.length u).id ≠ t.id := hut
    rw [if_neg hut, if_pos hus, if_neg hut']
  · rw [if_neg hus]
    by_cases hut : u.id = t.id
    · have hus' : (sealedSpan b.length u).id ≠ s.id := hus
      rw [if_pos hut, if_neg hus']
    · rw [if_neg hut, if_neg hus]

/-- The regions after a patch that made one, without their numbers. -/
theorem unnumbered_spans (hp : p.Rewrites m s a m₁) (hs : s ∉ m.spans) :
    m₁.spans.toList.map Span.unnumbered =
      place (sealedSpan a.length s).unnumbered (m.spans.toList.map Span.unnumbered) := by
  have hold : (m.spans.toList.map fun u => if u.id = s.id then sealedSpan a.length u else u) =
      m.spans.toList := by
    refine (List.map_congr_left fun u hu => ?_).trans (List.map_id _)
    have hmem := Array.mem_toList_iff.mp hu
    rw [if_neg (hp.id_ne hmem fun heq => hs (heq ▸ hmem)), id]
  rw [hp.spans, having, if_neg hs]
  show (Array.map _ (place s m.spans.toList).toArray).toList.map _ = _
  rw [List.map_toArray, map_place, hold, if_pos rfl, map_place]
  · exact fun _ => rfl
  · intro u
    split <;> rfl

/-- A place of its own, up to the number of the region. -/
theorem unnumbered_again {c : List Cell} (ht : m.Opens p.target t) (hnew : t ∉ m.spans) :
    (sealedSpan c.length (m.again m₁ t)).unnumbered = (sealedSpan c.length t).unnumbered := by
  rw [again, if_neg hnew, (ht.eq_newSpan hnew).1]
  rfl

/-- **Two patches of different regions leave the same regions in both orders**, up to numbers. -/
theorem spans_comm (hp : p.Rewrites m s a m₁) (hq : q.Rewrites m₁ (m.again m₁ t) b m₂)
    (hq' : q.Rewrites m t b m₁') (hp' : p.Rewrites m₁' (m.again m₁' s) a m₂') (hne : t ≠ s)
    (hbase : s ∉ m.spans → t ∉ m.spans → s.base ≠ t.base) :
    m₂'.spans.map Span.unnumbered = m₂.spans.map Span.unnumbered := by
  by_cases ht : t ∈ m.spans
  · rw [spans_comm_of_mem hp hq hq' hp' ht hne]
  by_cases hs : s ∈ m.spans
  · rw [spans_comm_of_mem hq' hp' hp hq hs hne.symm]
  have hagain : m.again m₁ t ∉ m₁.spans := by
    rw [again, if_neg ht]
    exact newSpan_not_mem hp.tables _
  have hagain' : m.again m₁' s ∉ m₁'.spans := by
    rw [again, if_neg hs]
    exact newSpan_not_mem hq'.tables _
  refine Array.toList_inj.mp ?_
  rw [Array.toList_map, Array.toList_map, hq.unnumbered_spans hagain, hp.unnumbered_spans hs,
    hp'.unnumbered_spans hagain', hq'.unnumbered_spans ht, unnumbered_again hp.opens hs,
    unnumbered_again hq'.opens ht]
  have hbases : (sealedSpan b.length t).unnumbered.base ≠ (sealedSpan a.length s).unnumbered.base :=
    (hbase hs ht).symm
  exact place_comm hbases _

/-- The region that was patched is not the one that another target opens next. -/
theorem ne_again (hp : p.Rewrites m s a m₁) (hne : t ≠ s) :
    sealedSpan a.length s ≠ m.again m₁ t := by
  unfold again
  by_cases ht : t ∈ m.spans
  · rw [if_pos ht]
    exact fun heq => hp.id_ne ht hne (congrArg Span.id heq).symm
  · rw [if_neg ht]
    exact fun heq => newSpan_not_mem hp.tables _ (heq ▸ hp.mem_self)

/-- The cells that a patch writes are told by its body and the globals. -/
theorem written_eq (h : p.Rewrites m s a m₁) (h' : p.Rewrites m' t b m₁')
    (hglobals : m'.addresses = m.addresses) : b = a := by
  obtain ⟨calls, hcalls, hcells⟩ := h.assembled
  obtain ⟨calls', hcalls', hcells'⟩ := h'.assembled
  rw [hglobals] at hcalls'
  cases hcalls.symm.trans hcalls'
  exact Option.some.inj (hcells'.symm.trans hcells)

/-- Two patches of regions that stand apart leave the same cells in both orders. -/
theorem cells_comm (hp : p.Rewrites m s a m₁) (hq : q.Rewrites m₁ (m.again m₁ t) b m₂)
    (hq' : q.Rewrites m t b m₁') (hp' : p.Rewrites m₁' (m.again m₁' s) a m₂')
    (hapart : s.entry.Apart t.entry) : m₂'.cells = m₂.cells := by
  have hbase {u : Span} {m' : Memory} : (m.again m' u).base = u.base :=
    congrArg RoutineEntry.base (entry_again m m' u)
  rw [hp'.cells, hq'.cells, hq.cells, hp.cells, hbase, hbase]
  -- the one that stands first ends before the other one begins
  have hcomm {s t : Span} {a b : List Cell} (hs : m.Encloses s) (ht : m.Encloses t)
      (ha : (a.length : Int) ≤ s.capacity.toInt) (hb : (b.length : Int) ≤ t.capacity.toInt)
      (hbefore : s.entry.Before t.entry) :
      overlaid (overlaid m.cells s.base a.toArray) t.base b.toArray =
        overlaid (overlaid m.cells t.base b.toArray) s.base a.toArray := by
    have hlimit : s.limit ≤ t.base := hbefore.limit
    rw [Int64.le_iff_toInt_le, hs.toInt_limit hp.settled.storage] at hlimit
    have hend := ht.limit
    refine overlaid_comm hs.base ?_ ?_
    · rw [List.size_toArray]
      omega
    · rw [List.size_toArray]
      omega
  rcases hapart with hbefore | hbefore
  · exact (hcomm hp.encloses hq'.encloses hp.room hq'.room hbefore).symm
  · exact hcomm hq'.encloses hp.encloses hq'.room hp.room hbefore

end Rewrites

/-- **Two patches of different regions that succeed in one order succeed in the other one**, emit
the same routines and leave the same memory. -/
theorem exists_swapped (hm : m.Settled) (hp : p.target.Exact m) (hq : q.target.Exact m)
    (hother : ∀ u, p.target.Designates m u → ¬q.target.Designates m u) {r r' : Routine}
    (h : p.apply m = .ok r m₁) (h' : q.apply m₁ = .ok r' m₂) :
    ∃ m₁' m₂', q.apply m = .ok r' m₁' ∧ p.apply m₁' = .ok r m₂' ∧ m₂.SameState m₂' := by
  obtain ⟨s, hs⟩ := opens_of_apply hm h
  obtain ⟨a, hfirst⟩ := rewrites_of_apply hm hp hs h
  have hm₁ := hfirst.settled_after
  have hq₁ := hfirst.exact_after hq
  obtain ⟨t₁, ht₁⟩ := opens_of_apply hm₁ h'
  obtain ⟨t, ht, hne, rfl, hclear⟩ := hfirst.exists_opens hq ht₁ hother
  obtain ⟨b, hsecond⟩ := rewrites_of_apply hm₁ hq₁ ht₁ h'
  -- `q` comes first
  have hback : m₁.SameHoldings m :=
    ⟨hfirst.holdings.size.symm, hfirst.holdings.limit.symm, hfirst.holdings.next.symm,
      hfirst.holdings.addresses.symm, hfirst.holdings.order.symm⟩
  obtain ⟨m₁', hone⟩ := apply_ok_of_opens hm₁ hm hback hq₁ hq ht₁ ht (entry_again m m₁ t).symm h'
  obtain ⟨b', hfirst'⟩ := rewrites_of_apply hm hq ht hone
  obtain rfl := hsecond.written_eq hfirst' hback.addresses
  have hapart : s.entry.Apart t.entry := by
    have hapart := hsecond.apart hfirst.mem_self (hfirst.ne_again hne)
    rwa [entry_again] at hapart
  have hbase (ht' : t ∉ m.spans) : s.base ≠ t.base :=
    RoutineEntry.base_ne_of_not_blocks (hclear ht') (ht.lt_limit hm hq ht')
  have hclear' (hs' : s ∉ m.spans) : ¬t.entry.Blocks s.entry := by
    intro hblocks
    by_cases ht' : t ∈ m.spans
    · have hentry : t.entry ∈ m.entries := mem_entries_of_mem ht'
      exact hs.mem_or_clear.resolve_left hs' ⟨_, hentry, hblocks⟩
    · exact hbase ht' ((RoutineEntry.blocks_iff_of_apart hapart.symm).mp hblocks).1.symm
  have hopens := hfirst'.opens_again hs hne.symm hclear'
  have hm₁' := hfirst'.settled_after
  have hp₁ := hfirst'.exact_after hp
  obtain ⟨m₂', htwo⟩ :=
    apply_ok_of_opens hm hm₁' hfirst'.holdings hp hp₁ hs hopens (entry_again m m₁' s) h
  obtain ⟨a', hsecond'⟩ := rewrites_of_apply hm₁' hp₁ hopens htwo
  obtain rfl := hfirst.written_eq hsecond' hfirst'.holdings.addresses
  have hsame := hfirst.holdings.trans hsecond.holdings
  have hsame' := hfirst'.holdings.trans hsecond'.holdings
  have hnames := hsecond.names.trans hfirst.names
  have hnames' := hsecond'.names.trans hfirst'.names
  exact ⟨m₁', m₂', hone, htwo,
    Rewrites.cells_comm hfirst hsecond hfirst' hsecond' hapart,
    hsame'.next.trans hsame.next.symm, hsame'.limit.trans hsame.limit.symm,
    hnames'.trans hnames.symm, hsame'.addresses.trans hsame.addresses.symm,
    hsame'.order.trans hsame.order.symm,
    Rewrites.spans_comm hfirst hsecond hfirst' hsecond' hne fun _ => hbase⟩

/-- What a target opens after its own patch. -/
theorem Rewrites.opens_self (hp : p.Rewrites m s a m₁) :
    m₁.Opens p.target (sealedSpan a.length s) := by
  have hmem := hp.mem_self
  have hopens := hp.opens
  generalize p.target = target at hopens
  cases hopens with
  | region hname hidle =>
    refine .region ?_ hidle
    rw [hp.spanNamed?, hname, Option.map_some, if_pos rfl]
  | range hs hrange hidle => exact .range hmem (hp.handsOut_iff.mpr hrange) hidle
  | fresh hrange hclear => exact .range hmem (hp.handsOut_iff.mpr hrange) rfl

/-- **A patch that succeeds does so again, and the second time nothing is changed**: but for a lease
more on record, which is closed. -/
theorem exists_apply_again (hm : m.Settled) (hp : p.target.Exact m) {r : Routine}
    (h : p.apply m = .ok r m₁) : ∃ leases, p.apply m₁ = .ok r { m₁ with leases } := by
  obtain ⟨s, hs⟩ := opens_of_apply hm h
  obtain ⟨a, hfirst⟩ := rewrites_of_apply hm hp hs h
  have hm₁ := hfirst.settled_after
  have hp₁ := hfirst.exact_after hp
  have hopens := hfirst.opens_self
  obtain ⟨m₂, htwo⟩ := apply_ok_of_opens hm hm₁ hfirst.holdings hp hp₁ hs hopens rfl h
  obtain ⟨a', hsecond⟩ := rewrites_of_apply hm₁ hp₁ hopens htwo
  obtain rfl := hfirst.written_eq hsecond hfirst.holdings.addresses
  have hcells : m₂.cells = m₁.cells := by
    have henc := hfirst.encloses
    have hlimit := henc.limit
    have hroom := hfirst.room
    rw [hsecond.cells, hfirst.cells]
    refine overlaid_overlaid henc.base ?_ rfl
    rw [List.size_toArray]
    omega
  have hspans : m₂.spans = m₁.spans := by
    rw [hsecond.spans, having_of_mem hfirst.mem_self]
    refine (Array.map_congr_left fun u hu => ?_).trans (Array.map_id _)
    rcases hfirst.eq_or_mem hu with rfl | ⟨-, hid⟩
    · rw [if_pos rfl]
      rfl
    · exact if_neg hid
  refine ⟨m₂.leases, htwo.trans ?_⟩
  obtain ⟨cells, next, limit, spans, names, leases, addresses, order⟩ := m₂
  cases hcells
  cases hspans
  cases hsecond.holdings.next
  cases hsecond.holdings.limit
  cases hsecond.names
  cases hsecond.holdings.addresses
  cases hsecond.holdings.order
  rfl

end Patch

namespace Patched

open CellMachine.Memory

variable {m m₁ m₂ : Memory} {p q : Patch}

/-- Two patches, one after the other. -/
theorem applyAll_pair {r r' : Routine} (h : p.apply m = .ok r m₁) (h' : q.apply m₁ = .ok r' m₂) :
    applyAll [p, q] { memory := m } = .ok () { memory := m₂, done := #[r, r'] } := by
  have hone : apply p { memory := m } = .ok () { memory := m₁, done := #[r] } := by
    unfold apply
    dsimp only
    rw [h]
    rfl
  have htwo : apply q { memory := m₁, done := #[r] } =
      .ok () { memory := m₂, done := #[r, r'] } := by
    unfold apply
    dsimp only
    rw [h']
    rfl
  exact (bind_of_ok hone).trans (bind_of_ok htwo)

/-- Two patches that succeed one after the other have both succeeded. -/
theorem exists_of_applyAll_pair {w : Patched} (h : applyAll [p, q] { memory := m } = .ok () w) :
    ∃ r r' m₁, p.apply m = .ok r m₁ ∧ q.apply m₁ = .ok r' w.memory ∧ w.done = #[r, r'] := by
  obtain ⟨⟨⟩, w₁, hfirst, hrest⟩ := ok_of_bind h
  obtain ⟨⟨⟩, w₂, hsecond, hnil⟩ := ok_of_bind hrest
  cases hnil
  unfold apply at hfirst hsecond
  split at hfirst
  · next r m₁ happly =>
    cases hfirst
    split at hsecond
    · next r' m₂ happly' =>
      cases hsecond
      exact ⟨r, r', m₁, happly, happly', rfl⟩
    · cases hsecond
  · cases hfirst

/-- **Patches of different regions commute, and patches are idempotent.** If two patches succeed one
after the other then they do so in the other order, with the same routines and the same memory in
the end. A patch that succeeds does so again, and nothing is changed but for the record of closed
leases. The regions may be named, or ranges of cells that become regions on the way. -/
theorem applyAll_comm (hm : m.Settled) (hp : p.target.Exact m) :
    (∀ q : Patch, q.target.Exact m →
      (∀ s, p.target.Designates m s → ¬q.target.Designates m s) →
      ∀ w, applyAll [p, q] { memory := m } = .ok () w →
        ∃ w', applyAll [q, p] { memory := m } = .ok () w' ∧ w.memory.SameState w'.memory ∧
          w'.done.toList.Perm w.done.toList) ∧
    ∀ routine m₁, p.apply m = .ok routine m₁ →
      ∃ leases, p.apply m₁ = .ok routine { m₁ with leases } := by
  constructor
  · intro q hq hother w h
    obtain ⟨r, r', m₁, hone, htwo, hdone⟩ := exists_of_applyAll_pair h
    obtain ⟨m₁', m₂', hone', htwo', hsame⟩ := Patch.exists_swapped hm hp hq hother hone htwo
    refine ⟨_, applyAll_pair hone' htwo', hsame, ?_⟩
    rw [hdone]
    exact .swap r r' []
  · intro routine m₁ h
    exact Patch.exists_apply_again hm hp h

/-- A memory with a region behind four cells that are handed out. -/
def pairEstate : Estate :=
  .run { memory := { cells := Array.replicate 32 0, limit := 16 } }
    [.memory (.alloc 4), .memory (.reserve "hook" 4)]

/-- The region. -/
def pairHook : Span := { id := 0, name := "hook", base := 4, capacity := 4, length := 3 }

/-- A patch of a range of cells that is no region yet. -/
def pairFresh : Patch where
  pos := ⟨1, 1⟩
  target := .range 0 3
  body := [{ pos := ⟨2, 1⟩, op? := some "PROC" }, { pos := ⟨3, 1⟩, op? := some "RET" }]

/-- A patch of the region, with a jump in it. -/
def pairNamed : Patch where
  pos := ⟨5, 1⟩
  target := .region "hook"
  body := [
    { pos := ⟨6, 1⟩, label? := some "top", op? := some "PROC" },
    { pos := ⟨7, 1⟩, op? := some "JREL", args := [{ pos := ⟨7, 6⟩, text := ":top" }] }]

/-- A range stands for regions at its base only. -/
theorem base_of_designates {base : Addr} {capacity : Int64} {s : Span}
    (h : (PatchTarget.range base capacity).Designates m s) : s.base = base := by
  cases h <;> rfl

/-- One of the patches makes a region, the other one overwrites a named one. In both orders there
are two regions in the end. -/
theorem applyAll_comm_pair :
    pairEstate.memory.Settled ∧ pairFresh.target.Exact pairEstate.memory ∧
      pairNamed.target.Exact pairEstate.memory ∧ ∃ w w',
        applyAll [pairFresh, pairNamed] { memory := pairEstate.memory } = .ok () w ∧
        applyAll [pairNamed, pairFresh] { memory := pairEstate.memory } = .ok () w' ∧
        w.memory.SameState w'.memory ∧ w'.done.toList.Perm w.done.toList ∧
        w.memory.spans.size = 2 := by
  have hnew : Memory.new 32 16 = .ok { cells := Array.replicate 32 0, limit := 16 } := rfl
  have hreach : pairEstate.Reachable := Estate.Reachable.run (.new hnew) _
  have hspans : pairEstate.memory.spans = #[pairHook] := by decide +kernel
  have hsize : pairEstate.memory.cells.size = 32 := by decide +kernel
  have honly {s : Span} (hs : s ∈ pairEstate.memory.spans) : s = pairHook := by
    rw [hspans] at hs
    simpa using hs
  have hsettled : pairEstate.memory.Settled := by
    refine settled_of_reachable hreach (fun s hs => ?_) fun s hs => ?_
    · rw [honly hs]
      rfl
    · rw [honly hs]
      exact ⟨by decide, by decide, by rw [hsize]; decide⟩
  have hfresh : pairFresh.target.Exact pairEstate.memory := by
    refine ⟨by decide, by decide, ?_⟩
    rw [hsize]
    decide
  have hother (s : Span) (hs : pairFresh.target.Designates pairEstate.memory s) :
      ¬pairNamed.target.Designates pairEstate.memory s := by
    rintro (hname | _)
    have hbase : s.base = 0 := base_of_designates hs
    rw [honly (mem_of_spanNamed? hname)] at hbase
    exact absurd hbase (by decide)
  have hruns : ((applyAll [pairFresh, pairNamed]).result?
      { memory := pairEstate.memory }).map (fun r => r.2.memory.spans.size) = some 2 := by
    decide +kernel
  obtain ⟨⟨⟨⟩, w⟩, hresult, htwo⟩ := Option.map_eq_some_iff.mp hruns
  have hrun := of_result? hresult
  obtain ⟨w', hrun', hsame, hperm⟩ :=
    (applyAll_comm hsettled hfresh).1 pairNamed trivial hother w hrun
  exact ⟨hsettled, hfresh, trivial, w, w', hrun, hrun', hsame, hperm, htwo⟩

end Patched

end CellMachine
