import CellMachine.Program.Image

/-!
# What the layout of an image guarantees

The layout of an image is checked on its routines in the order of their bases, each against the next
one. The statements here say what follows for any two routines of an image that passes.

* `RoutineEntry.Before` — one place ends before another one begins.
* `RoutineEntry.Blocks` — one place is in the way of another one.
* `Image.nodup_of_checkLayout` — no two routines share a name.
* `Image.apart_of_checkLayout` — of any two routines one ends before the other begins.
* `Image.checkLayout_of_before` — routines that stand one before the other inside the image pass.

Limits wrap around, as all sums of addresses do, and a place with a limit below its base counts as
empty. An empty place may share its base with a place that is not empty, and the two stand apart.
Nevertheless the empty one is in the way of the other one (`RoutineEntry.blocks_iff_of_apart`).
-/

namespace CellMachine

/-! ### Places -/

namespace RoutineEntry

/-- One place ends before another one begins. -/
structure Before (a b : RoutineEntry) : Prop where
  base : a.base ≤ b.base
  limit : a.limit ≤ b.base

/-- A place is in the way of another one: it begins below the other one and reaches over its base,
or begins at its base or above and before its end. -/
def Blocks (e r : RoutineEntry) : Prop :=
  (e.base < r.base ∧ r.base < e.limit) ∨ (r.base ≤ e.base ∧ e.base < r.limit)

instance (e r : RoutineEntry) : Decidable (e.Blocks r) :=
  inferInstanceAs (Decidable (_ ∨ _))

/-- A place below a base is in the way if it reaches over the base. -/
theorem blocks_iff_of_lt {e r : RoutineEntry} (h : e.base < r.base) :
    e.Blocks r ↔ r.base < e.limit := by
  grind [Blocks]

/-- A place from a base on is in the way if it begins before the end. -/
theorem blocks_iff_of_le {e r : RoutineEntry} (h : r.base ≤ e.base) :
    e.Blocks r ↔ e.base < r.limit := by
  grind [Blocks]

/-- Of two places one ends before the other begins. -/
def Apart (a b : RoutineEntry) : Prop := a.Before b ∨ b.Before a

/-- Standing apart is symmetric. -/
theorem Apart.symm {a b : RoutineEntry} (h : a.Apart b) : b.Apart a := Or.symm h

/-- Of two places that stand apart, one is in the way of the other exactly if they share their base
and the other one is not empty. -/
theorem blocks_iff_of_apart {e r : RoutineEntry} (h : e.Apart r) :
    e.Blocks r ↔ e.base = r.base ∧ r.base < r.limit := by
  unfold Blocks
  rcases h with ⟨hbase, hlimit⟩ | ⟨hbase, hlimit⟩
  · grind
  · grind

end RoutineEntry

namespace Image

/-! ### The checks -/

/-- No two routines that pass the check of names and places share a name, and none has a name that
was seen before. -/
theorem nodup_of_routineFault? {img : Image} {routines : List RoutineEntry} :
    ∀ {seen : List String}, img.routineFault? seen routines = none →
      (routines.map RoutineEntry.name).Nodup ∧ ∀ r ∈ routines, r.name ∉ seen := by
  induction routines with
  | nil =>
    intro seen _
    exact ⟨List.nodup_nil, fun r hr => absurd hr List.not_mem_nil⟩
  | cons r rest ih =>
    intro seen h
    unfold routineFault? at h
    split at h
    · cases h
    · next hseen =>
      split at h
      · cases h
      · obtain ⟨hnodup, hfresh⟩ := ih h
        constructor
        · rw [List.map_cons, List.nodup_cons]
          refine ⟨?_, hnodup⟩
          intro hmem
          obtain ⟨t, ht, hname⟩ := List.mem_map.mp hmem
          exact hfresh t ht (hname ▸ List.mem_cons_self)
        · intro t ht
          rcases List.mem_cons.mp ht with rfl | ht
          · exact hseen
          · exact fun hmem => hfresh t ht (List.mem_cons_of_mem _ hmem)

/-- Routines in the order of their bases of which no two neighbours overlap stand one before the
other. -/
theorem pairwise_of_overlapFault? {routines : List RoutineEntry}
    (hsorted : routines.Pairwise fun a b => a.base ≤ b.base)
    (h : overlapFault? routines = none) : routines.Pairwise RoutineEntry.Before := by
  induction routines with
  | nil => exact List.Pairwise.nil
  | cons a rest ih =>
    obtain ⟨hbase, hrest⟩ := List.pairwise_cons.mp hsorted
    cases rest with
    | nil => exact List.pairwise_singleton _ _
    | cons b rest =>
      unfold overlapFault? at h
      split at h
      · cases h
      · next hlimit =>
        refine List.pairwise_cons.mpr ⟨?_, ih hrest h⟩
        intro c hc
        have hbc : b.base ≤ c.base := by
          rcases List.mem_cons.mp hc with rfl | hc
          · exact Int64.le_refl _
          · exact (List.pairwise_cons.mp hrest).1 c hc
        exact ⟨hbase c hc, Int64.le_trans (Int64.not_lt.mp hlimit) hbc⟩

/-- An image that passes the check of its layout has none of the faults that are looked for. -/
theorem faults_of_checkLayout [BaseOrder] {img : Image} (h : img.checkLayout = .ok ()) :
    0 ≤ img.base ∧ img.routineFault? [] img.routines = none ∧
      overlapFault? img.sortedRoutines = none := by
  unfold checkLayout layoutFault? at h
  split at h
  · cases h
  · next hfault =>
    split at hfault
    · cases hfault
    · next hbase =>
      rw [Option.or_eq_none_iff, Option.or_eq_none_iff] at hfault
      exact ⟨Int64.not_lt.mp hbase, hfault.2⟩

/-- **No two routines of an image share a name**, if its layout passes. -/
theorem nodup_of_checkLayout [BaseOrder] {img : Image} (h : img.checkLayout = .ok ()) :
    (img.routines.map RoutineEntry.name).Nodup :=
  (nodup_of_routineFault? (faults_of_checkLayout h).2.1).1

/-- Sorted routines are in the order of their bases. -/
theorem pairwise_sortedRoutines [BaseOrder] (img : Image) :
    img.sortedRoutines.Pairwise fun a b => a.base ≤ b.base :=
  BaseOrder.sorted img.routines

/-- Sorting keeps the routines. -/
theorem sortedRoutines_perm [BaseOrder] (img : Image) : img.sortedRoutines.Perm img.routines :=
  BaseOrder.perm img.routines

/-- **Of any two routines of an image one ends before the other begins**, if its layout passes. -/
theorem apart_of_checkLayout [BaseOrder] {img : Image} (h : img.checkLayout = .ok ()) :
    img.routines.Pairwise RoutineEntry.Apart := by
  have hbefore := pairwise_of_overlapFault? img.pairwise_sortedRoutines
    (faults_of_checkLayout h).2.2
  exact (img.sortedRoutines_perm.pairwise_iff RoutineEntry.Apart.symm).mp (hbefore.imp Or.inl)

/-! ### Layouts that pass -/

/-- Globals have none of the faults if their names are distinct and they lie between the base and
the end. -/
theorem globalFault?_eq_none {img : Image} {globals : List GlobalEntry}
    (hplace : ∀ g ∈ globals, img.base ≤ g.addr ∧ g.addr < img.limit) :
    ∀ {seen : List String}, (∀ g ∈ globals, g.name ∉ seen) →
      (globals.map GlobalEntry.name).Nodup → img.globalFault? seen globals = none := by
  induction globals with
  | nil =>
    intro seen _ _
    rfl
  | cons g rest ih =>
    intro seen hfresh hnodup
    rw [List.map_cons, List.nodup_cons] at hnodup
    obtain ⟨hlow, hhigh⟩ := hplace g List.mem_cons_self
    unfold globalFault?
    rw [if_neg (hfresh g List.mem_cons_self), if_neg (by simpa using ⟨hlow, hhigh⟩)]
    apply ih fun t ht => hplace t (List.mem_cons_of_mem _ ht)
    · intro t ht
      rw [List.mem_cons, not_or]
      refine ⟨fun hname => hnodup.1 ?_, hfresh t (List.mem_cons_of_mem _ ht)⟩
      exact hname ▸ List.mem_map_of_mem ht
    · exact hnodup.2

/-- Routines have none of the faults if their names are distinct and they lie between the base and
the end. -/
theorem routineFault?_eq_none {img : Image} {routines : List RoutineEntry}
    (hplace : ∀ r ∈ routines, 0 ≤ r.capacity ∧ img.base ≤ r.base ∧ r.limit ≤ img.limit) :
    ∀ {seen : List String}, (∀ r ∈ routines, r.name ∉ seen) →
      (routines.map RoutineEntry.name).Nodup → img.routineFault? seen routines = none := by
  induction routines with
  | nil =>
    intro seen _ _
    rfl
  | cons r rest ih =>
    intro seen hfresh hnodup
    rw [List.map_cons, List.nodup_cons] at hnodup
    unfold routineFault?
    rw [if_neg (hfresh r List.mem_cons_self), if_neg (by simpa using hplace r List.mem_cons_self)]
    apply ih fun t ht => hplace t (List.mem_cons_of_mem _ ht)
    · intro t ht
      rw [List.mem_cons, not_or]
      refine ⟨fun hname => hnodup.1 ?_, hfresh t (List.mem_cons_of_mem _ ht)⟩
      exact hname ▸ List.mem_map_of_mem ht
    · exact hnodup.2

/-- Routines that stand one before the other do not overlap. -/
theorem overlapFault?_eq_none {routines : List RoutineEntry}
    (h : routines.Pairwise RoutineEntry.Before) : overlapFault? routines = none := by
  induction routines with
  | nil => rfl
  | cons a rest ih =>
    obtain ⟨hbefore, hrest⟩ := List.pairwise_cons.mp h
    cases rest with
    | nil => rfl
    | cons b rest =>
      unfold overlapFault?
      rw [if_neg (Int64.not_lt.mpr (hbefore b List.mem_cons_self).limit)]
      exact ih hrest

/-- A sort that keeps the order of routines that share a base leaves routines where they are if they
stand in the order of their bases. -/
theorem sortedRoutines_stable {img : Image}
    (h : img.routines.Pairwise fun a b => a.base ≤ b.base) :
    @sortedRoutines .stable img = img.routines :=
  List.mergeSort_of_pairwise (h.imp fun hle => by simpa using hle)

/-- **The layout of an image passes** if names are distinct, everything lies inside the image, and
the routines stand one before the other where sorting leaves them. -/
theorem checkLayout_of_before [BaseOrder] {img : Image} (hbase : 0 ≤ img.base)
    (hglobals : ∀ g ∈ img.globals, img.base ≤ g.addr ∧ g.addr < img.limit)
    (hglobalNames : (img.globals.map GlobalEntry.name).Nodup)
    (hroutines : ∀ r ∈ img.routines, 0 ≤ r.capacity ∧ img.base ≤ r.base ∧ r.limit ≤ img.limit)
    (hroutineNames : (img.routines.map RoutineEntry.name).Nodup)
    (hbefore : img.sortedRoutines.Pairwise RoutineEntry.Before) : img.checkLayout = .ok () := by
  have hfault : img.layoutFault? = none := by
    unfold layoutFault?
    rw [if_neg (Int64.not_lt.mpr hbase),
      globalFault?_eq_none hglobals (fun _ _ => List.not_mem_nil) hglobalNames,
      routineFault?_eq_none hroutines (fun _ _ => List.not_mem_nil) hroutineNames,
      overlapFault?_eq_none hbefore]
    rfl
  unfold checkLayout
  rw [hfault]

end Image

end CellMachine
