import CellMachine.Proofs.Memory.Reloading

/-!
# What a load installs

An image that is loaded is copied to its place, its globals are defined and each of its routines
becomes a region. Globals and routines may come in any order and number. This module says what the
memory is afterwards, all at once: it is what it was, with the image and nothing else.

* `Span.Hosts` — a region is the one of a routine, and nothing has happened to it.
* `Memory.Registers` — some routines were registered, in whatever places, and nothing else was.
* `Memory.registers_of_ok` — **routines that are registered one after the other** leave every region
  that was there as it was.
* `Memory.Installs` — an image was installed, and nothing else was.
* `Memory.installs_of_loadImage` — **a load that succeeds installs the image and nothing else.**
-/

namespace CellMachine

open CellMachine.Action

/-- A region is the one of a routine of an image, as it is when the image is loaded: all of its
cells count as its stream, and it can be entered and leased. -/
structure Span.Hosts (s : Span) (r : RoutineEntry) : Prop where
  entry : s.entry = r
  length : s.length = r.capacity.toInt
  unleased : s.lease? = none
  idle : s.running = 0
  sound : s.poisoned = false

namespace Memory

variable {m m' m'' : Memory}

/-! ### The registration of routines -/

/-- A change of the region with one number changes one region, if no other has the number. -/
theorem updateSpan_of_split {s : Span} {low high : List Span}
    (hspans : m.spans.toList = low ++ s :: high) (hother : ∀ t ∈ low ++ high, t.id ≠ s.id)
    (f : Span → Span) : (m.updateSpan s.id f).spans.toList = low ++ f s :: high := by
  have hkept : ∀ part : List Span, (∀ t ∈ part, t.id ≠ s.id) →
      part.map (fun t => if t.id = s.id then f t else t) = part := by
    intro part hpart
    refine (List.map_congr_left fun t ht => ?_).trans (List.map_id part)
    rw [if_neg (hpart t ht), id]
  unfold updateSpan
  rw [Array.toList_map, hspans, List.map_append, List.map_cons, if_pos rfl,
    hkept low fun t ht => hother t (List.mem_append_left _ ht),
    hkept high fun t ht => hother t (List.mem_append_right _ ht)]

/-- Routines were registered in a memory, in whatever places, and nothing else happened. -/
structure Registers (m : Memory) (routines : List RoutineEntry) (m' : Memory) : Prop where
  ordered : m'.Ordered
  sound : m'.Sound
  indexed : m'.Indexed
  cells : m'.cells = m.cells
  next : m'.next = m.next
  limit : m'.limit = m.limit
  leases : m'.leases = m.leases
  addresses : m'.addresses = m.addresses
  order : m'.order = m.order
  /-- The regions are those that there were and one for each of the routines. -/
  spans : ∃ new, m'.spans.toList.Perm (m.spans.toList ++ new) ∧ List.Forall₂ Span.Hosts new routines
  /-- Each routine that has a name is found by it. -/
  found : ∀ r ∈ routines, r.name ≠ "" → ∃ s, m'.spanNamed? r.name = some s ∧ s.Hosts r
  /-- What was found before is found still. -/
  kept : ∀ name s, m.spanNamed? name = some s → m'.spanNamed? name = some s

/-- No routine was registered. -/
theorem Registers.refl (hm : m.Ordered) (hsound : m.Sound) (hindexed : m.Indexed) :
    m.Registers [] m where
  ordered := hm
  sound := hsound
  indexed := hindexed
  cells := rfl
  next := rfl
  limit := rfl
  leases := rfl
  addresses := rfl
  order := rfl
  spans := ⟨[], by rw [List.append_nil], .nil⟩
  found _ hr := absurd hr List.not_mem_nil
  kept _ _ h := h

/-- Some routines were registered, and then some more. -/
theorem Registers.trans {first rest : List RoutineEntry} (h : m.Registers first m')
    (h' : m'.Registers rest m'') : m.Registers (first ++ rest) m'' where
  ordered := h'.ordered
  sound := h'.sound
  indexed := h'.indexed
  cells := h'.cells.trans h.cells
  next := h'.next.trans h.next
  limit := h'.limit.trans h.limit
  leases := h'.leases.trans h.leases
  addresses := h'.addresses.trans h.addresses
  order := h'.order.trans h.order
  spans := by
    obtain ⟨new, hperm, hnew⟩ := h.spans
    obtain ⟨new', hperm', hnew'⟩ := h'.spans
    refine ⟨new ++ new', ?_, List.rel_append hnew hnew'⟩
    rw [← List.append_assoc]
    exact hperm'.trans (hperm.append_right new')
  found r hr hname := by
    rcases List.mem_append.mp hr with hr | hr
    · obtain ⟨s, hs, hhosts⟩ := h.found r hr hname
      exact ⟨s, h'.kept _ _ hs, hhosts⟩
    · exact h'.found r hr hname
  kept name s hs := h'.kept name s (h.kept name s hs)

/-- The region that a routine of an image becomes. -/
def routineSpan (m : Memory) (r : RoutineEntry) : Span :=
  { m.newSpan r with length := r.capacity.toInt }

/-- **One routine is registered.** Its region is put in its place, and its length is noted there. -/
theorem registers_of_clear (hm : m.Ordered) (hsound : m.Sound) (hindexed : m.Indexed)
    {r : RoutineEntry} (hname : m.Fresh r.name) (hclear : ¬m.Blocked r)
    (rest : List RoutineEntry) :
    ∃ m', m.Registers [r] m' ∧ m.Inserted r m' ∧
      registerRoutines (r :: rest) m = registerRoutines rest m' := by
  obtain ⟨low, high, hs, hlow, hhigh, hreg⟩ := register_of_clear hm hname hclear
  let note : Span → Span := fun s => { s with length := r.capacity.toInt }
  let m' := (m.registered r low high).updateSpan (m.newSpan r).id note
  have hthere : ∀ s ∈ low ++ high, s ∈ m.spans := by
    intro s hmem
    rwa [← Array.mem_toList_iff, hs]
  have hspans : m'.spans.toList = low ++ m.routineSpan r :: high :=
    -- no other region has the number of the new one
    updateSpan_of_split rfl
      (fun s hmem => Nat.ne_of_lt (hsound.below s (hthere s hmem))) note
  have hnew : m.routineSpan r ∈ m'.spans := by
    rw [← Array.mem_toList_iff, hspans]
    simp
  have hordered : m'.Ordered := (ordered_of_split hm hs hlow hhigh).updateSpan _ fun _ => rfl
  have hsound' : m'.Sound := (hsound.register hs).updateSpan _ (fun _ => rfl) fun _ => rfl
  have hindexed' : m'.Indexed :=
    (hindexed.registered hs hname).of_tags rfl (tags_updateSpan _ _ fun _ => ⟨rfl, rfl⟩)
  have hperm : m'.spans.toList.Perm (m.spans.toList ++ [m.routineSpan r]) := by
    rw [hspans, hs]
    exact List.perm_middle.trans (List.perm_append_singleton _ _).symm
  refine ⟨m', ?_, ⟨hordered, ?_, fun name hother => ?_⟩, bind_of_ok hreg⟩
  · refine ⟨hordered, hsound', hindexed', rfl, rfl, rfl, rfl, rfl, rfl,
      ⟨[m.routineSpan r], hperm, .cons ⟨rfl, rfl, rfl, rfl, rfl⟩ .nil⟩, ?_, ?_⟩
    · intro t ht hnamed
      cases List.mem_singleton.mp ht
      have hfound := (hindexed'.spanNamed?_eq_some_iff hsound').mpr ⟨hnamed, hnew, rfl⟩
      exact ⟨m.routineSpan r, hfound, rfl, rfl, rfl, rfl, rfl⟩
    · intro name s hfound
      obtain ⟨hnamed, hmem, hsame⟩ := (hindexed.spanNamed?_eq_some_iff hsound).mp hfound
      refine (hindexed'.spanNamed?_eq_some_iff hsound').mpr ⟨hnamed, ?_, hsame⟩
      rw [← Array.mem_toList_iff, hperm.mem_iff]
      exact List.mem_append_left _ (Array.mem_toList_iff.mpr hmem)
  · exact (hperm.trans (List.perm_append_singleton _ _)).map Span.entry
  · exact lookup_namesWith_of_ne (m.newSpan r) fun heq => hother heq.symm

/-- **Routines that are registered one after the other** become regions, each in its place, and
nothing else changes. -/
theorem registers_of_ok {routines : List RoutineEntry} :
    ∀ {m m' : Memory}, m.Ready routines → m.Sound → m.Indexed →
      registerRoutines routines m = .ok () m' → m.Registers routines m' := by
  induction routines with
  | nil =>
    intro m m' hready hsound hindexed h
    cases h
    exact .refl hready.ordered hsound hindexed
  | cons r rest ih =>
    intro m m' hready hsound hindexed h
    have hname := hready.fresh r List.mem_cons_self
    have hclear : ¬m.Blocked r := by
      intro hblocked
      obtain ⟨failure, herror⟩ := registerRoutines_of_blocked hready hblocked
      rw [herror] at h
      cases h
    obtain ⟨m₁, hfirst, hins, heq⟩ :=
      registers_of_clear hready.ordered hsound hindexed hname hclear rest
    rw [heq] at h
    exact hfirst.trans (ih (hready.tail hins) hfirst.sound hfirst.indexed h)

/-! ### Loads -/

/-- An image was installed in a memory, and nothing else happened. -/
structure Installs (m : Memory) (img : Image) (m' : Memory) : Prop where
  /-- The cells from the base to the end are those of the image; all others are what they were. -/
  cells : ∀ i : Nat, m'.cells[i]? =
    if img.base.toInt ≤ i ∧ i < img.limit.toInt then img.cells[i - img.base.toInt.toNat]?
    else m.cells[i]?
  /-- The end lies behind as many cells as the image has. -/
  ends : img.limit.toInt = img.base.toInt + img.cells.size
  /-- Memory is handed out up to the end. -/
  next : m'.next = img.limit
  limit : m'.limit = m.limit
  leases : m'.leases = m.leases
  /-- The globals of the image follow those that there were. -/
  globals : m'.globals = m.globals ++ img.globals.map fun g => (g.name, g.addr)
  /-- Every global of the image has its address. -/
  defined : ∀ g ∈ img.globals, m'.globalAddr? g.name = some g.addr
  /-- Every global that there was has the address that it had. -/
  held : ∀ name a, m.globalAddr? name = some a → m'.globalAddr? name = some a
  /-- Every routine that has a name is found by it, as a region that can be entered and leased. -/
  found : ∀ r ∈ img.routines, r.name ≠ "" → ∃ s, m'.spanNamed? r.name = some s ∧ s.Hosts r
  /-- Every region that was found by a name is found by it as it was. -/
  kept : ∀ name s, m.spanNamed? name = some s → m'.spanNamed? name = some s
  /-- The regions are those that there were, as they were, and one for each routine. -/
  spans : ∃ new, m'.spans.toList.Perm (m.spans.toList ++ new) ∧
    List.Forall₂ Span.Hosts new img.routines

/-- **A load that succeeds installs the image and nothing else**: in every memory that can come
about and for every image that storage can hold. -/
theorem installs_of_loadImage [BaseOrder] (hm : m.Reachable) {img : Image}
    (hcells : img.cells.size ≤ maxCells) (hload : loadImage img m = .ok () m') :
    m.Installs img m' := by
  have hadmits := admits_of_loadImage hload
  have hend := hadmits.not_overflows hm.bounds.2.2.2 hcells
  have hreceived := hadmits.received hm hend
  have hlimit := Image.toInt_limit (Image.base_nonneg hadmits.layout) hend
  obtain ⟨cells, addresses, hreceive, -⟩ := exists_receive m img
  rw [loadImage_of_admits hadmits] at hload
  have hregisters := registers_of_ok (hadmits.ready hm.ordered) (by
    rw [hreceive]
    exact hm.sound.of_tables rfl rfl) (by
    rw [hreceive]
    exact hm.indexed.of_tags rfl rfl) hload
  have haddr (name : String) : m'.globalAddr? name = (m.receive img).globalAddr? name := by
    unfold globalAddr?
    rw [hregisters.addresses]
  have hdefined : ∀ g ∈ img.globals, m'.globalAddr? g.name = some g.addr := by
    intro g hg
    rw [haddr]
    exact globalAddr?_bindGlobals_of_mem (Image.globalNames_nodup hadmits.layout) hg
  have hheld : ∀ name a, m.globalAddr? name = some a → m'.globalAddr? name = some a := by
    intro name a hold
    rw [haddr]
    refine (globalAddr?_receive_of_not_mem fun hmem => ?_).trans hold
    obtain ⟨g, hg, rfl⟩ := List.mem_map.mp hmem
    rw [hadmits.fresh_globals g hg] at hold
    cases hold
  constructor
  case cells =>
    intro i
    rw [hregisters.cells, hreceived.cells, hlimit]
  case ends => exact hlimit
  case next => rw [hregisters.next, hreceive]
  case limit => rw [hregisters.limit, hreceive]
  case leases => rw [hregisters.leases, hreceive]
  case globals =>
    have horder : m'.order = m.order ++ img.globals.map GlobalEntry.name := by
      rw [hregisters.order, hreceive]
    unfold globals
    rw [horder, List.map_append, List.map_map]
    congr 1
    · refine List.map_congr_left fun name hmem => ?_
      obtain ⟨a, ha⟩ := hm.listed.exists_address hmem
      rw [ha, hheld name a ha]
    · refine List.map_congr_left fun g hg => ?_
      rw [Function.comp_apply, hdefined g hg, Option.getD_some]
  case defined => exact hdefined
  case held => exact hheld
  case found => exact hregisters.found
  case kept =>
    rw [hreceive] at hregisters
    exact hregisters.kept
  case spans =>
    rw [hreceive] at hregisters
    exact hregisters.spans

/-- A memory with a global and a region. -/
def settledMemory : Memory :=
  (MemoryCall.reserve "hook" 3).after <| (MemoryCall.defineGlobal "a" 9).after
    { cells := Array.replicate 32 0, limit := 16 }

/-- An image with a global and two routines, the second one first. -/
def pairImage : Image where
  version := imageVersion
  base := 5
  cells? := some (#[7] ++ stub ++ stub)
  globals := [{ name := "x", addr := 5 }]
  routines :=
    [{ name := "second", base := 9, capacity := 3 }, { name := "first", base := 6, capacity := 3 }]

/-- An image is installed behind a global and a region, one cell after them. -/
theorem installs_of_loadImage_settled :
    settledMemory.Reachable ∧ pairImage.cells.size ≤ maxCells ∧
      ∃ m', loadImage pairImage settledMemory = .ok () m' ∧
        settledMemory.Installs pairImage m' := by
  have hnew : Memory.new 32 16 = .ok { cells := Array.replicate 32 0, limit := 16 } := rfl
  have hreach : settledMemory.Reachable := .call _ (.call _ (.new hnew))
  have hlayout : pairImage.checkLayout = .ok () := by
    have hsorted : pairImage.sortedRoutines = pairImage.routines.reverse := by
      simp [Image.sortedRoutines, BaseOrder.sort, pairImage, List.mergeSort]
    unfold Image.checkLayout Image.layoutFault?
    rw [hsorted]
    rfl
  have hadmits : settledMemory.Admits pairImage :=
    ⟨rfl, hlayout, by decide +kernel, by decide +kernel, by decide +kernel, by decide +kernel⟩
  have hregistered : ((registerRoutines pairImage.routines).result?
      (settledMemory.receive pairImage)).isSome = true := by decide +kernel
  obtain ⟨⟨⟨⟩, m'⟩, hresult⟩ := Option.isSome_iff_exists.mp hregistered
  have hload : loadImage pairImage settledMemory = .ok () m' := by
    rw [loadImage_of_admits hadmits]
    exact of_result? hresult
  exact ⟨hreach, by decide, m', hload, installs_of_loadImage hreach (by decide) hload⟩

end Memory

end CellMachine
