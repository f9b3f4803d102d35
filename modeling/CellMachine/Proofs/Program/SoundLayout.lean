import CellMachine.Proofs.Program.Bounds

/-!
# The check of a layout decides whether it is sound

A layout is sound if names are distinct, everything lies inside the image and no address belongs to
two routines. The check of a layout looks at neighbours only, after sorting the routines by their
bases. That is enough: in this order a routine that reaches over the base of a later one reaches
over the base of its neighbour. Routines of one base may be sorted either way, but if neither is
empty they overlap, whichever comes first.

* `RoutineEntry.Covers`, `Image.SoundLayout` — what is decided, in exact integers.
* `Image.Passes` — the four checks, on the routines in any order that sorting may give.
* `Image.passes_iff_sound` — they all hold exactly if the layout is sound.
* `Image.checkLayout_iff_sound` — **so the check of a layout decides it**, however sorting treats
  routines of one base, and in whatever order the routines are listed.

Sums that wrap around are left out (`Image.contains_iff` says what the check makes of them), and so
are empty routines, which cover no address but may be in the way of another one.
-/

namespace CellMachine

/-! ### Routines as ranges of addresses -/

namespace RoutineEntry

variable {r t : RoutineEntry}

/-- An address belongs to a routine. -/
def Covers (r : RoutineEntry) (a : Int) : Prop :=
  r.base.toInt ≤ a ∧ a < r.base.toInt + r.capacity.toInt

/-- No address belongs to both of two routines. -/
def Disjoint (r t : RoutineEntry) : Prop := ∀ a, r.Covers a → ¬t.Covers a

/-- Being disjoint is symmetric. -/
theorem Disjoint.symm (h : r.Disjoint t) : t.Disjoint r := fun a ht hr => h a hr ht

/-- The end of a routine that does not wrap around. -/
theorem toInt_limit (hbase : 0 ≤ r.base.toInt) (hcapacity : 0 ≤ r.capacity.toInt)
    (hexact : ¬r.Overflows) : r.limit.toInt = r.base.toInt + r.capacity.toInt :=
  toInt_add_of_not_overflows hbase hcapacity hexact

/-- A routine that ends before another one begins has no address in common with it. -/
theorem Before.disjoint (h : r.Before t)
    (hlimit : r.limit.toInt = r.base.toInt + r.capacity.toInt) : r.Disjoint t := by
  intro a hr ht
  have hend := Int64.le_iff_toInt_le.mp h.limit
  exact absurd (hlimit ▸ hr.2) (Int.not_lt.mpr (Int.le_trans hend ht.1))

/-- Of two disjoint routines that are not empty, the one with the lower base ends before the other
one begins: else the base of the other one would belong to both. -/
theorem Disjoint.before (h : r.Disjoint t) (hbase : r.base ≤ t.base) (ht : 0 < t.capacity.toInt)
    (hlimit : r.limit.toInt = r.base.toInt + r.capacity.toInt) : r.Before t := by
  refine ⟨hbase, ?_⟩
  rw [Int64.le_iff_toInt_le] at hbase ⊢
  have hcovered : t.Covers t.base.toInt := ⟨Int.le_refl _, by omega⟩
  have hfree : ¬r.Covers t.base.toInt := fun hr => h _ hr hcovered
  unfold Covers at hfree
  omega

end RoutineEntry

namespace Image

variable {img : Image}

/-! ### Sound layouts -/

/-- The layout of an image is sound. -/
structure SoundLayout (img : Image) : Prop where
  base : 0 ≤ img.base.toInt
  globalNames : (img.globals.map GlobalEntry.name).Nodup
  globals : ∀ g ∈ img.globals,
    img.base.toInt ≤ g.addr.toInt ∧ g.addr.toInt < img.base.toInt + img.cells.size
  routineNames : (img.routines.map RoutineEntry.name).Nodup
  routines : ∀ r ∈ img.routines, img.Contains r
  disjoint : img.routines.Pairwise RoutineEntry.Disjoint

/-- The order in which routines are listed has no part in a sound layout. -/
theorem SoundLayout.of_perm {routines : List RoutineEntry} (h : img.SoundLayout)
    (hperm : routines.Perm img.routines) : SoundLayout { img with routines } where
  base := h.base
  globalNames := h.globalNames
  globals := h.globals
  routineNames := (hperm.map RoutineEntry.name).nodup_iff.mpr h.routineNames
  routines := by
    intro r hr
    obtain ⟨hlow, hcapacity, hhigh⟩ := h.routines r (hperm.mem_iff.mp hr)
    exact ⟨hlow, hcapacity, hhigh⟩
  disjoint := (hperm.pairwise_iff RoutineEntry.Disjoint.symm).mpr h.disjoint

/-! ### The four checks -/

/-- An image passes the checks of its layout, with its routines sorted in a given way. -/
structure Passes (img : Image) (sorted : List RoutineEntry) : Prop where
  base : 0 ≤ img.base
  globals : img.globalFault? [] img.globals = none
  routines : img.routineFault? [] img.routines = none
  neighbours : overlapFault? sorted = none

/-- The check of a layout consists of these checks. -/
theorem checkLayout_iff_passes [BaseOrder] :
    img.checkLayout = .ok () ↔ img.Passes img.sortedRoutines := by
  constructor
  · intro h
    obtain ⟨hbase, hroutines, hneighbours⟩ := faults_of_checkLayout h
    exact ⟨hbase, globalFault?_of_checkLayout h, hroutines, hneighbours⟩
  · rintro ⟨hbase, hglobals, hroutines, hneighbours⟩
    have hfault : img.layoutFault? = none := by
      unfold layoutFault?
      rw [if_neg (Int64.not_lt.mpr hbase), hglobals, hroutines, hneighbours]
      rfl
    unfold checkLayout
    rw [hfault]

/-! ### What is decided -/

section

variable {sorted : List RoutineEntry} (hcapacity : ∀ r ∈ img.routines, r.capacity ≠ 0)
  (hend : ¬img.Overflows) (hends : ∀ r ∈ img.routines, ¬r.Overflows)
  (hperm : sorted.Perm img.routines) (hsorted : sorted.Pairwise fun a b => a.base ≤ b.base)

include hend hends hperm hsorted in
/-- An image that passes the checks has a sound layout. -/
theorem Passes.sound (h : img.Passes sorted) : img.SoundLayout := by
  have hbase : 0 ≤ img.base.toInt := toInt_nonneg_iff.mp h.base
  have hlimit := toInt_limit hbase hend
  have hplace : ∀ r ∈ img.routines, 0 ≤ r.capacity.toInt ∧ img.base.toInt ≤ r.base.toInt ∧
      r.limit.toInt = r.base.toInt + r.capacity.toInt ∧ r.limit.toInt ≤ img.limit.toInt := by
    intro r hr
    obtain ⟨hcap, hlow, hhigh⟩ := between_of_routineFault? h.routines r hr
    have hcap := toInt_nonneg_iff.mp hcap
    have hlow := Int64.le_iff_toInt_le.mp hlow
    have hexact := RoutineEntry.toInt_limit (Int.le_trans hbase hlow) hcap (hends r hr)
    exact ⟨hcap, hlow, hexact, Int64.le_iff_toInt_le.mp hhigh⟩
  have hbefore := pairwise_of_overlapFault? hsorted h.neighbours
  have hdisjoint : sorted.Pairwise RoutineEntry.Disjoint := by
    refine hbefore.imp_of_mem ?_
    intro r t hr _ hrt
    exact hrt.disjoint (hplace r (hperm.mem_iff.mp hr)).2.2.1
  exact {
    base := hbase
    globalNames := (nodup_of_globalFault? h.globals).1
    globals := by
      intro g hg
      obtain ⟨hlow, hhigh⟩ := between_of_globalFault? h.globals g hg
      exact ⟨Int64.le_iff_toInt_le.mp hlow, hlimit ▸ Int64.lt_iff_toInt_lt.mp hhigh⟩
    routineNames := (nodup_of_routineFault? h.routines).1
    routines := by
      intro r hr
      obtain ⟨hcap, hlow, hexact, hhigh⟩ := hplace r hr
      exact ⟨hlow, hcap, by omega⟩
    disjoint := (hperm.pairwise_iff RoutineEntry.Disjoint.symm).mp hdisjoint }

include hcapacity hend hends hperm hsorted in
/-- An image with a sound layout passes the checks. -/
theorem SoundLayout.passes (h : img.SoundLayout) : img.Passes sorted := by
  have hlimit := toInt_limit h.base hend
  have hexact : ∀ r ∈ img.routines, r.limit.toInt = r.base.toInt + r.capacity.toInt := by
    intro r hr
    obtain ⟨hlow, hcap, -⟩ := h.routines r hr
    exact RoutineEntry.toInt_limit (Int.le_trans h.base hlow) hcap (hends r hr)
  have hpositive : ∀ r ∈ img.routines, 0 < r.capacity.toInt := by
    intro r hr
    have hne : r.capacity.toInt ≠ 0 := fun hzero => hcapacity r hr (Int64.toInt_inj.mp hzero)
    have hcap := (h.routines r hr).capacity
    omega
  have hdisjoint := (hperm.pairwise_iff RoutineEntry.Disjoint.symm).mpr h.disjoint
  have hbefore : sorted.Pairwise RoutineEntry.Before := by
    refine (hsorted.and hdisjoint).imp_of_mem ?_
    intro r t hr ht hrt
    exact hrt.2.before hrt.1 (hpositive t (hperm.mem_iff.mp ht)) (hexact r (hperm.mem_iff.mp hr))
  exact {
    base := toInt_nonneg_iff.mpr h.base
    globals := by
      refine globalFault?_eq_none ?_ (fun _ _ => List.not_mem_nil) h.globalNames
      intro g hg
      obtain ⟨hlow, hhigh⟩ := h.globals g hg
      exact ⟨Int64.le_iff_toInt_le.mpr hlow, Int64.lt_iff_toInt_lt.mpr (hlimit ▸ hhigh)⟩
    routines := by
      refine routineFault?_eq_none ?_ (fun _ _ => List.not_mem_nil) h.routineNames
      intro r hr
      obtain ⟨hlow, hcap, hhigh⟩ := h.routines r hr
      refine ⟨toInt_nonneg_iff.mpr hcap, Int64.le_iff_toInt_le.mpr hlow, ?_⟩
      rw [Int64.le_iff_toInt_le, hexact r hr, hlimit]
      exact hhigh
    neighbours := overlapFault?_eq_none hbefore }

include hcapacity hend hends hperm hsorted in
/-- **The four checks decide whether a layout is sound**, in whatever way the routines are sorted by
their bases. -/
theorem passes_iff_sound : img.Passes sorted ↔ img.SoundLayout :=
  ⟨Passes.sound hend hends hperm hsorted,
    SoundLayout.passes hcapacity hend hends hperm hsorted⟩

end

/-- **The check of a layout decides whether it is sound**, if no routine is empty and no end wraps
around. The verdict is the same however routines of one base are sorted, and it does not depend on
the order in which the routines are listed. -/
theorem checkLayout_iff_sound [BaseOrder] (hcapacity : ∀ r ∈ img.routines, r.capacity ≠ 0)
    (hend : ¬img.Overflows) (hends : ∀ r ∈ img.routines, ¬r.Overflows) :
    (img.checkLayout = .ok () ↔ img.SoundLayout) ∧
    (∀ sorted : List RoutineEntry, sorted.Perm img.routines →
      sorted.Pairwise (fun a b => a.base ≤ b.base) → (img.Passes sorted ↔ img.SoundLayout)) ∧
    ∀ routines : List RoutineEntry, routines.Perm img.routines →
      (Image.checkLayout { img with routines } = .ok () ↔ img.checkLayout = .ok ()) := by
  have hdecides : img.checkLayout = .ok () ↔ img.SoundLayout :=
    checkLayout_iff_passes.trans
      (passes_iff_sound hcapacity hend hends img.sortedRoutines_perm img.pairwise_sortedRoutines)
  refine ⟨hdecides, fun sorted hperm hsorted =>
    passes_iff_sound hcapacity hend hends hperm hsorted, ?_⟩
  intro routines hperm
  let listed : Image := { img with routines }
  have hlisted : listed.checkLayout = .ok () ↔ listed.SoundLayout :=
    checkLayout_iff_passes.trans
      (passes_iff_sound (fun r hr => hcapacity r (hperm.mem_iff.mp hr)) hend
        (fun r hr => hends r (hperm.mem_iff.mp hr)) listed.sortedRoutines_perm
        listed.pairwise_sortedRoutines)
  have hsame : listed.SoundLayout ↔ img.SoundLayout :=
    ⟨fun h => h.of_perm hperm.symm, fun h => h.of_perm hperm⟩
  exact hlisted.trans (hsame.trans hdecides.symm)

/-- An image whose routines are not listed in the order in which they stand. -/
def shuffledImage : Image where
  version := imageVersion
  base := 16
  cells? := some (Array.replicate 7 0)
  globals := [⟨"first", 16⟩, ⟨"last", 22⟩]
  routines := [⟨"late", 20, 2⟩, ⟨"main", 17, 2⟩, ⟨"hook", 19, 1⟩]

/-- The layout is sound, so the image passes, and with its routines listed the other way, too. -/
theorem checkLayout_iff_sound_shuffled :
    (∀ r ∈ shuffledImage.routines, r.capacity ≠ 0) ∧ ¬shuffledImage.Overflows ∧
    (∀ r ∈ shuffledImage.routines, ¬r.Overflows) ∧ shuffledImage.SoundLayout ∧
    shuffledImage.checkLayout = .ok () ∧
    Image.checkLayout { shuffledImage with routines := shuffledImage.routines.reverse } =
      .ok () := by
  have hcapacity : ∀ r ∈ shuffledImage.routines, r.capacity ≠ 0 := by decide
  have hend : ¬shuffledImage.Overflows := by decide
  have hends : ∀ r ∈ shuffledImage.routines, ¬r.Overflows := by decide
  obtain ⟨hdecides, hsorting, horder⟩ := checkLayout_iff_sound hcapacity hend hends
  have hpasses : shuffledImage.Passes [⟨"main", 17, 2⟩, ⟨"hook", 19, 1⟩, ⟨"late", 20, 2⟩] :=
    ⟨by decide, by decide, by decide, by decide⟩
  have hsound := (hsorting _ (by decide) (by decide)).mp hpasses
  have hchecked := hdecides.mpr hsound
  exact ⟨hcapacity, hend, hends, hsound, hchecked, (horder _ (List.reverse_perm _)).mpr hchecked⟩

end Image

end CellMachine
