import Mathlib.Algebra.Group.Nat.Defs
import Mathlib.Data.List.Forall2
import Mathlib.Data.List.Nodup
import CellMachine.Proofs.Program.Bounds
import CellMachine.Proofs.Program.Build

/-!
# Linked programs

What a program is linked to, after any calls. The code is followed through the four things that can
happen to it: routines stand in it one after the other, with gaps where cells were appended outside
all routines, and each of them has the cells of its draft. As long as no address wraps around this
gives the places of all routines in exact integers.

* `Laid` — routines stand in the code one after the other, with the cells of their drafts.
* `Outline.Charted.step`, `Outline.Charted.run` — the code is laid out like that, up to the routine
  that is open, and stays so along every run.
* `Laid.pairwise_before` — such routines stand one before the other.
* `Program.LinksTo.checkLayout`, `Program.LinksTo.holds` — the image of such a program passes the
  check of its layout, and holds what the program has.
* `Build.complete_of_link` — **whatever was called, a program that links gives an image that passes
  the check of its layout, and holds exactly what was declared and built.**
-/

namespace CellMachine

/-! ### Code with routines in it -/

/-- Routines stand in the code one after the other. Each one has the cells of its draft, and as many
as were reserved if any were. There may be other cells before, between and behind them. -/
inductive Laid (codeBase : Addr) : List Cell → List RoutineEntry → List Draft → Prop
  | nil : Laid codeBase [] [] []
  | gap {code : List Cell} {routines : List RoutineEntry} {drafts : List Draft} :
    Laid codeBase code routines drafts → (cells : List Cell) →
    Laid codeBase (code ++ cells) routines drafts
  | routine {code : List Cell} {routines : List RoutineEntry} {drafts : List Draft} {d : Draft}
    {cells : List Cell} : Laid codeBase code routines drafts → d.cells? = some cells →
    (0 < d.reserve → cells.length = d.reserve) →
    Laid codeBase (code ++ cells)
      (routines ++ [⟨d.name, codeBase + Int64.ofNat code.length, Int64.ofNat cells.length⟩])
      (drafts ++ [d])

/-- A routine stands somewhere in the code and has the cells of its draft there. -/
structure Draft.Stands (d : Draft) (codeBase : Addr) (code : List Cell) (r : RoutineEntry) :
    Prop where
  name : r.name = d.name
  place : ∃ before cells rest, code = before ++ (cells ++ rest) ∧ d.cells? = some cells ∧
    (0 < d.reserve → cells.length = d.reserve) ∧
    r.base = codeBase + Int64.ofNat before.length ∧ r.capacity = Int64.ofNat cells.length

/-- The exact sum of an address and a number of cells. -/
theorem toInt_add_ofNat {a : Addr} {n : Nat} (ha : 0 ≤ a.toInt) (h : a.toInt + n < 2 ^ 63) :
    (a + Int64.ofNat n).toInt = a.toInt + n := by
  have hn : (Int64.ofNat n).toInt = n := Int64.toInt_ofNat_of_lt (by omega)
  rw [toInt_add_of_not_overflows ha (by omega), hn]
  unfold Overflows
  omega

/-- The distance between two places in the code. -/
theorem toInt_distance (a : Addr) {m n : Nat} (h : m + n < 2 ^ 63) :
    (a + Int64.ofNat (m + n) - (a + Int64.ofNat m)).toInt = n := by
  have hsub : a + Int64.ofNat (m + n) - (a + Int64.ofNat m) = Int64.ofNat n := by
    rw [Int64.ofNat_add]
    grind
  rw [hsub]
  exact Int64.toInt_ofNat_of_lt (by omega)

section Places

variable {codeBase : Addr} {code : List Cell} {r : RoutineEntry} {d : Draft}

/-- A routine stays where it is when cells are put behind the code. -/
theorem Draft.Stands.append (h : d.Stands codeBase code r) (more : List Cell) :
    d.Stands codeBase (code ++ more) r := by
  obtain ⟨before, cells, rest, rfl, hplace⟩ := h.place
  exact ⟨h.name, before, cells, rest ++ more, by simp only [List.append_assoc], hplace⟩

/-- A routine lies inside the code, in exact integers. -/
theorem Draft.Stands.inside (h : d.Stands codeBase code r) (hbase : 0 ≤ codeBase.toInt)
    (hend : codeBase.toInt + code.length < 2 ^ 63) :
    0 ≤ r.capacity.toInt ∧ codeBase.toInt ≤ r.base.toInt ∧
      r.limit.toInt = r.base.toInt + r.capacity.toInt ∧
      r.limit.toInt ≤ codeBase.toInt + code.length := by
  obtain ⟨before, cells, rest, rfl, -, -, hstart, hcapacity⟩ := h.place
  simp only [List.length_append] at hend ⊢
  have hfirst : r.base.toInt = codeBase.toInt + before.length := by
    rw [hstart]
    exact toInt_add_ofNat hbase (by omega)
  have hsize : r.capacity.toInt = cells.length := by
    rw [hcapacity]
    exact Int64.toInt_ofNat_of_lt (by omega)
  have hlimit : r.limit.toInt = r.base.toInt + cells.length := by
    unfold RoutineEntry.limit
    rw [hcapacity]
    exact toInt_add_ofNat (by omega) (by omega)
  exact ⟨by omega, by omega, by omega, by omega⟩

variable {routines : List RoutineEntry} {drafts : List Draft}

/-- Every routine has the cells of its draft. -/
theorem Laid.stands (h : Laid codeBase code routines drafts) :
    List.Forall₂ (fun r d => Draft.Stands d codeBase code r) routines drafts := by
  induction h with
  | nil => exact .nil
  | gap _ cells ih => exact ih.imp fun _ _ hstands => hstands.append cells
  | @routine code routines drafts d cells _ hcells hreserved ih =>
    have hold := ih.imp fun _ _ hstands => hstands.append cells
    have hnew : Draft.Stands d codeBase (code ++ cells)
        ⟨d.name, codeBase + Int64.ofNat code.length, Int64.ofNat cells.length⟩ := by
      refine ⟨rfl, code, cells, [], ?_, hcells, hreserved, rfl, rfl⟩
      rw [List.append_nil]
    exact List.rel_append hold (.cons hnew .nil)

/-- Every routine has a draft whose cells it has. -/
theorem Laid.exists_stands (h : Laid codeBase code routines drafts) (hr : r ∈ routines) :
    ∃ d, Draft.Stands d codeBase code r := by
  obtain ⟨hlength, hstands⟩ := List.forall₂_iff_get.mp h.stands
  obtain ⟨i, rfl⟩ := List.get_of_mem hr
  exact ⟨_, hstands i.val i.isLt (Nat.lt_of_lt_of_eq i.isLt hlength)⟩

/-- Every draft has a routine that has its cells. -/
theorem Laid.exists_routine (h : Laid codeBase code routines drafts) (hd : d ∈ drafts) :
    ∃ r ∈ routines, Draft.Stands d codeBase code r := by
  obtain ⟨hlength, hstands⟩ := List.forall₂_iff_get.mp h.stands
  obtain ⟨i, rfl⟩ := List.get_of_mem hd
  exact ⟨_, List.get_mem _ _, hstands i.val (Nat.lt_of_lt_of_eq i.isLt hlength.symm) i.isLt⟩

/-- The routines have the names of their drafts. -/
theorem Laid.names (h : Laid codeBase code routines drafts) :
    routines.map RoutineEntry.name = drafts.map Draft.name := by
  induction h with
  | nil => rfl
  | gap _ _ ih => exact ih
  | routine _ _ _ ih =>
    rw [List.map_append, List.map_append, ih]
    rfl

/-- **Routines that were laid one after the other stand one before the other**, as long as no
address wraps around. -/
theorem Laid.pairwise_before (h : Laid codeBase code routines drafts)
    (hbase : 0 ≤ codeBase.toInt) (hend : codeBase.toInt + code.length < 2 ^ 63) :
    routines.Pairwise RoutineEntry.Before := by
  induction h with
  | nil => exact .nil
  | gap _ cells ih =>
    rw [List.length_append] at hend
    exact ih (by omega)
  | @routine code routines drafts d cells hlaid _ _ ih =>
    rw [List.length_append] at hend
    refine List.pairwise_append.mpr ⟨ih (by omega), List.pairwise_singleton _ _, ?_⟩
    intro a ha b hb
    rw [List.mem_singleton] at hb
    obtain ⟨e, hstands⟩ := hlaid.exists_stands ha
    obtain ⟨hcapacity, -, hlimit, hinside⟩ := hstands.inside hbase (by omega)
    have hstart : b.base.toInt = codeBase.toInt + code.length := by
      rw [hb]
      exact toInt_add_ofNat hbase (by omega)
    constructor
    · rw [Int64.le_iff_toInt_le]
      omega
    · rw [Int64.le_iff_toInt_le]
      omega

end Places

/-! ### What the four things do to the code -/

namespace Outline

variable {o o' : Outline}

/-- The code is laid out. If a routine is open it is the last one, and has the cells of its pieces
so far. -/
inductive Charted (o : Outline) : Prop
  | between : o.current? = none → Laid o.codeBase o.code o.routines o.drafts → Charted o
  | inside {r : OpenRoutine} {before body : List Cell} : o.current? = some r →
    Laid o.codeBase before o.routines o.drafts → o.code = before ++ body →
    r.base = o.codeBase + Int64.ofNat before.length → assemblePieces? 0 o.pieces = some body →
    Charted o

/-- No two routines have one name, and the open one has another name than the others. -/
structure Named (o : Outline) : Prop where
  distinct : (o.routines.map RoutineEntry.name).Nodup
  fresh : ∀ r, o.current? = some r → ∀ e ∈ o.routines, e.name ≠ r.name

/-- The code only grows, and stays at its place. -/
theorem Step.grows (h : Step o o') :
    o'.dataBase = o.dataBase ∧ o.code.length ≤ o'.code.length := by
  cases h with
  | aside => exact ⟨rfl, Nat.le_refl _⟩
  | begin _ _ => exact ⟨rfl, Nat.le_refl _⟩
  | append _ => exact ⟨rfl, by simp⟩
  | finish _ _ _ => exact ⟨rfl, by simp⟩

/-- The code stays at its place along every run. -/
theorem dataBase_of_run (hrun : Relation.ReflTransGen Step o o') : o'.dataBase = o.dataBase := by
  induction hrun with
  | refl => rfl
  | tail _ hstep ih => exact hstep.grows.1.trans ih

/-- The length of the open routine so far. -/
theorem length_eq {r : OpenRoutine} {before body : List Cell} (hcode : o.code = before ++ body)
    (hbase : r.base = o.codeBase + Int64.ofNat before.length) (hsize : o.code.length < 2 ^ 63) :
    (o.here - r.base).toInt = body.length := by
  unfold here
  rw [hcode, List.length_append] at hsize ⊢
  rw [hbase]
  exact toInt_distance _ hsize

/-- **The code stays laid out**, whatever happens to it. -/
theorem Charted.step (h : o.Charted) (hstep : Step o o') (hsize : o.code.length < 2 ^ 63) :
    o'.Charted := by
  cases hstep with
  | aside => exact h
  | begin hnone _ =>
    cases h with
    | between _ hlaid => exact .inside rfl hlaid (List.append_nil _).symm rfl rfl
    | inside hcurrent => exact nomatch hnone.symm.trans hcurrent
  | @append piece cells hcells =>
    cases h with
    | between hnone hlaid => exact .between hnone (hlaid.gap cells)
    | @inside r before body hcurrent hlaid hcode hbase hbody =>
      have hmore : o.code ++ cells = before ++ (body ++ cells) := by
        rw [hcode, List.append_assoc]
      refine .inside hcurrent hlaid hmore hbase (assemblePieces?_concat hbody ?_)
      rw [Nat.zero_add, ← length_eq hcode hbase hsize]
      exact hcells r hcurrent
  | @finish r reserve length hcurrent hlength hfits =>
    cases h with
    | between hnone => exact nomatch hnone.symm.trans hcurrent
    | @inside r' before body hcurrent' hlaid hcode hbase hbody =>
      cases hcurrent.symm.trans hcurrent'
      rw [length_eq hcode hbase hsize] at hlength
      subst hlength
      let padding := List.replicate (reserve - body.length).toNat Op.nop.cell
      have hcells : (Draft.mk r.name o.pieces reserve).cells? = some (body ++ padding) := by
        simp only [Draft.cells?, hbody, Option.map_some, padding]
      have hmax : ((body ++ padding).length : Int) = max (body.length : Int) reserve := by
        simp only [padding, List.length_append, List.length_replicate]
        omega
      have hroutine := hlaid.routine hcells fun hpositive => by
        dsimp only at hpositive ⊢
        omega
      refine .between rfl ?_
      rw [hcode, List.append_assoc, ← hmax, Int64.ofInt_eq_ofNat, hbase]
      exact hroutine

/-- Names stay distinct, whatever happens to the code. -/
theorem Named.step (h : o.Named) (hstep : Step o o') : o'.Named := by
  cases hstep with
  | aside => exact h
  | begin _ hfresh =>
    refine ⟨h.distinct, fun r hr => ?_⟩
    cases hr
    exact hfresh
  | append _ => exact ⟨h.distinct, h.fresh⟩
  | @finish r reserve length hcurrent _ _ =>
    refine ⟨?_, nofun⟩
    rw [List.map_append, List.nodup_append]
    refine ⟨h.distinct, by simp, ?_⟩
    intro name hname last hlast
    obtain ⟨e, he, rfl⟩ := List.mem_map.mp hname
    rw [List.map_singleton, List.mem_singleton] at hlast
    rw [hlast]
    exact h.fresh r hcurrent e he

/-- **The code stays laid out along every run**, and names stay distinct. -/
theorem Charted.run (h : o.Charted) (hnamed : o.Named)
    (hrun : Relation.ReflTransGen Step o o') (hsize : o'.code.length < 2 ^ 63) :
    o'.Charted ∧ o'.Named := by
  induction hrun with
  | refl => exact ⟨h, hnamed⟩
  | tail _ hstep ih =>
    have hearlier := Nat.lt_of_le_of_lt hstep.grows.2 hsize
    obtain ⟨hcharted, hnamed⟩ := ih hearlier
    exact ⟨hcharted.step hstep hearlier, hnamed.step hstep⟩

end Outline

/-! ### Reading an image -/

namespace Image

/-- An image has exactly these globals, each with its contents, and exactly these routines, each
with the cells of its draft. -/
structure Holds (img : Image) (globals : List (String × Cell)) (drafts : List Draft) : Prop where
  globalNames : img.globals.map GlobalEntry.name = globals.map Prod.fst
  contents : ∀ name init, (name, init) ∈ globals → ∃ g i, img.global? name = some g ∧
    g.addr = img.base + Int64.ofNat i ∧ img.cells[i]? = some init
  routineNames : img.routines.map RoutineEntry.name = drafts.map Draft.name
  streams : ∀ d ∈ drafts, ∃ cells, d.cells? = some cells ∧
    (0 < d.reserve → cells.length = d.reserve) ∧
    img.routineCells d.name = .ok (some cells.toArray)

variable {img : Image} {r : RoutineEntry}

/-- The cells of an entry are read where they stand. -/
theorem entryCells_eq {before cells rest : List Cell}
    (hcells : img.cells.toList = before ++ (cells ++ rest)) (hbase : 0 ≤ img.base.toInt)
    (hend : ¬img.Overflows) (hstart : r.base.toInt = img.base.toInt + before.length)
    (hcapacity : r.capacity.toInt = cells.length) : img.entryCells r = .ok cells.toArray := by
  have hsize : img.cells.size = before.length + (cells.length + rest.length) := by
    rw [← Array.length_toList, hcells]
    simp only [List.length_append]
  unfold Overflows at hend
  have hfirst : (r.base - img.base).toInt = before.length := by
    rw [Int64.toInt_sub, Int.bmod_eq_of_le]
    · omega
    · omega
    · omega
  have hlast : (r.base - img.base + r.capacity).toInt = before.length + cells.length := by
    rw [toInt_add_of_not_overflows (by omega) (by omega), hfirst, hcapacity]
    unfold CellMachine.Overflows
    omega
  have hextract : img.cells.extract before.length (before.length + cells.length) =
      cells.toArray := by
    apply Array.toList_inj.mp
    rw [Array.toList_extract, hcells]
    simp [List.extract_eq_take_drop]
  have hnat : (before.length + cells.length : Int).toNat = before.length + cells.length := by omega
  unfold entryCells
  dsimp only
  rw [if_pos, hfirst, hlast, Int.toNat_natCast, hnat, hextract]
  rw [toInt_nonneg_iff, Int64.le_iff_toInt_le, hfirst, hlast]
  omega

/-- What has a name is found by it, if no two share a name. -/
theorem find?_eq_some_of_nodup {α : Type} {name : α → String} {entries : List α} {e : α}
    (h : (entries.map name).Nodup) (he : e ∈ entries) :
    (entries.find? fun other => name other == name e) = some e := by
  cases hfind : entries.find? fun other => name other == name e with
  | none => simpa using List.find?_eq_none.mp hfind e he
  | some other =>
    have hname : name other = name e := by simpa using List.find?_some hfind
    rw [List.inj_on_of_nodup_map h (List.mem_of_find?_eq_some hfind) he hname]

end Image

/-! ### What a program is linked to -/

namespace Program

variable {p : Program} {globals : List (String × Cell)} {drafts : List Draft} {img : Image}

/-- What a program is linked to. -/
theorem link_ok (h : p.link = .ok img) :
    p.current? = none ∧ img.base = p.dataBase ∧ img.cells = p.data ++ p.code ∧
      img.globals = p.scope.globals.map (fun g => ⟨g.name, g.addr⟩) ∧
      img.routines = p.routines.toList := by
  unfold link at h
  split at h
  · cases h
  · next hnone =>
    cases h
    exact ⟨hnone, rfl, rfl, rfl, rfl⟩

/-- The data of a program has its fixed size. -/
theorem Declares.size_data (h : p.Declares globals) : p.data.size = p.dataCells := by
  have hroom := h.room
  unfold data
  simp only [Array.size_append, List.size_toArray, List.length_map, Array.size_replicate]
  omega

/-- The data cell of a global holds its contents. -/
theorem getElem?_data {i : Nat} {g : DeclaredGlobal} (hg : p.scope.globals[i]? = some g) :
    p.data[i]? = some g.init := by
  obtain ⟨hlt, -⟩ := List.getElem?_eq_some_iff.mp hg
  unfold data
  rw [Array.getElem?_append_left (by simpa using hlt)]
  simp [hg]

/-- A program with these globals is linked to an image, and no address in it wraps around. -/
structure LinksTo (p : Program) (globals : List (String × Cell)) (img : Image) : Prop where
  declared : p.Declares globals
  link : p.link = .ok img
  base : 0 ≤ p.dataBase.toInt
  fits : ¬img.Overflows

namespace LinksTo

/-- The place of the code in the image, in exact integers. -/
theorem toInt_codeBase (h : p.LinksTo globals img) :
    p.codeBase.toInt = p.dataBase.toInt + p.dataCells ∧
      p.codeBase.toInt + p.code.size = img.limit.toInt ∧ img.limit.toInt < 2 ^ 63 := by
  obtain ⟨-, himg, hcells, -, -⟩ := link_ok h.link
  have hsize : img.cells.size = p.dataCells + p.code.size := by
    rw [hcells, Array.size_append, h.declared.size_data]
  have hlimit := Image.toInt_limit (himg ▸ h.base) h.fits
  have hend := h.fits
  have hbase := h.base
  unfold Image.Overflows at hend
  rw [himg] at hend hlimit
  have hcode : p.codeBase.toInt = p.dataBase.toInt + p.dataCells := toInt_add_ofNat hbase (by omega)
  exact ⟨hcode, by omega, by omega⟩

/-- A global that was declared has its place in the data, and its contents stand there. -/
theorem global_place (h : p.LinksTo globals img) {g : DeclaredGlobal} (hg : g ∈ p.scope.globals) :
    ∃ i : Nat, g.addr = img.base + Int64.ofNat i ∧ img.cells[i]? = some g.init ∧
      img.base ≤ g.addr ∧ g.addr < img.limit := by
  obtain ⟨i, hi⟩ := List.mem_iff_getElem?.mp hg
  obtain ⟨hlt, -⟩ := List.getElem?_eq_some_iff.mp hi
  obtain ⟨-, himg, hcells, -, -⟩ := link_ok h.link
  obtain ⟨hcode, hlimit, hfits⟩ := h.toInt_codeBase
  have hroom := h.declared.room
  have haddr := h.declared.placed i g hi
  have hexact : g.addr.toInt = p.dataBase.toInt + i := by
    rw [haddr]
    exact toInt_add_ofNat h.base (by omega)
  refine ⟨i, himg ▸ haddr, ?_, ?_, ?_⟩
  · rw [hcells, Array.getElem?_append_left (by rw [h.declared.size_data]; omega)]
    exact getElem?_data hi
  · rw [Int64.le_iff_toInt_le, himg]
    omega
  · rw [Int64.lt_iff_toInt_lt]
    omega

/-- The names of the globals in the image are distinct. -/
theorem nodup_globals (h : p.LinksTo globals img) :
    (img.globals.map GlobalEntry.name).Nodup := by
  obtain ⟨-, -, -, hglobals, -⟩ := link_ok h.link
  rw [hglobals, List.map_map]
  exact h.declared.distinct

/-- **A program whose code is laid out gives an image that passes the check of its layout.** -/
theorem checkLayout (h : p.LinksTo globals img)
    (hlaid : Laid p.codeBase p.code.toList p.routines.toList drafts)
    (hnames : (p.routines.toList.map RoutineEntry.name).Nodup) : img.checkLayout = .ok () := by
  obtain ⟨-, himg, -, hglobals, hroutines⟩ := link_ok h.link
  obtain ⟨hcode, hlimit, hfits⟩ := h.toInt_codeBase
  have hbase := h.base
  have hlow : 0 ≤ p.codeBase.toInt := by omega
  have hhigh : p.codeBase.toInt + p.code.toList.length < 2 ^ 63 := by
    rw [Array.length_toList]
    omega
  have hbefore : img.routines.Pairwise RoutineEntry.Before := by
    rw [hroutines]
    exact hlaid.pairwise_before hlow hhigh
  apply Image.checkLayout_of_before
  · rw [himg]
    exact toInt_nonneg_iff.mpr hbase
  · intro g hg
    rw [hglobals] at hg
    obtain ⟨declared, hdeclared, rfl⟩ := List.mem_map.mp hg
    obtain ⟨i, -, -, hplace⟩ := h.global_place hdeclared
    exact hplace
  · exact h.nodup_globals
  · intro r hr
    rw [hroutines] at hr
    obtain ⟨d, hstands⟩ := hlaid.exists_stands hr
    obtain ⟨hcapacity, hfirst, -, hlast⟩ := hstands.inside hlow hhigh
    rw [Array.length_toList] at hlast
    rw [toInt_nonneg_iff, Int64.le_iff_toInt_le, Int64.le_iff_toInt_le, himg]
    exact ⟨hcapacity, by omega, by omega⟩
  · rw [hroutines]
    exact hnames
  · rw [Image.sortedRoutines_stable (hbefore.imp RoutineEntry.Before.base)]
    exact hbefore

/-- The cells of a routine that stands in the code are read from the image. -/
theorem entryCells (h : p.LinksTo globals img) {d : Draft} {r : RoutineEntry}
    (hstands : Draft.Stands d p.codeBase p.code.toList r) :
    ∃ cells, d.cells? = some cells ∧ (0 < d.reserve → cells.length = d.reserve) ∧
      img.entryCells r = .ok cells.toArray := by
  obtain ⟨-, himg, hcells, -, -⟩ := link_ok h.link
  obtain ⟨hcode, hlimit, hfits⟩ := h.toInt_codeBase
  obtain ⟨before, cells, rest, hbody, hassembled, hreserved, hstart, hcapacity⟩ := hstands.place
  have hbase := h.base
  have hdata : p.data.toList.length = p.dataCells :=
    Array.length_toList.trans h.declared.size_data
  have hlength : p.code.size = before.length + (cells.length + rest.length) := by
    rw [← Array.length_toList, hbody]
    simp only [List.length_append]
  have hwhole : img.cells.toList = (p.data.toList ++ before) ++ (cells ++ rest) := by
    rw [hcells, Array.toList_append, hbody, List.append_assoc]
  refine ⟨cells, hassembled, hreserved, Image.entryCells_eq hwhole (himg ▸ hbase) h.fits ?_ ?_⟩
  · rw [hstart, toInt_add_ofNat (by omega) (by omega), himg, List.length_append, hdata]
    omega
  · rw [hcapacity]
    exact Int64.toInt_ofNat_of_lt (by omega)

/-- **A program whose code is laid out gives an image that holds what was declared and built.** -/
theorem holds (h : p.LinksTo globals img)
    (hlaid : Laid p.codeBase p.code.toList p.routines.toList drafts)
    (hnames : (p.routines.toList.map RoutineEntry.name).Nodup) : img.Holds globals drafts := by
  obtain ⟨-, -, -, hglobals, hroutines⟩ := link_ok h.link
  refine ⟨?_, fun name init hdeclared => ?_, ?_, fun d hd => ?_⟩
  · rw [hglobals, ← h.declared.listed, List.map_map, List.map_map]
    rfl
  · rw [← h.declared.listed] at hdeclared
    obtain ⟨g, hg, heq⟩ := List.mem_map.mp hdeclared
    obtain ⟨rfl, rfl⟩ := Prod.mk.inj heq
    obtain ⟨i, haddr, hinit, -⟩ := h.global_place hg
    have hlisted : ⟨g.name, g.addr⟩ ∈ img.globals := by
      rw [hglobals]
      exact List.mem_map_of_mem hg
    exact ⟨_, i, Image.find?_eq_some_of_nodup h.nodup_globals hlisted, haddr, hinit⟩
  · rw [hroutines]
    exact hlaid.names
  · obtain ⟨r, hr, hstands⟩ := hlaid.exists_routine hd
    obtain ⟨cells, hassembled, hreserved, hentry⟩ := h.entryCells hstands
    rw [← hroutines] at hr hnames
    have hfind : img.routine? d.name = some r :=
      hstands.name ▸ Image.find?_eq_some_of_nodup hnames hr
    refine ⟨cells, hassembled, hreserved, ?_⟩
    unfold Image.routineCells
    rw [hfind]
    dsimp only
    rw [hentry]
    rfl

end LinksTo

end Program

namespace Build

variable {dataBase : Addr} {dataCells : Int} {p : Program}

/-- The code of a new program is laid out. -/
theorem charted_start (h : Program.new dataBase dataCells = .ok p) :
    (start p).outline.Charted ∧ (start p).outline.Named ∧
      (start p).outline.dataBase = dataBase := by
  unfold Program.new at h
  split at h
  · cases h
  · cases h
    exact ⟨.between rfl .nil, ⟨List.nodup_nil, nofun⟩, rfl⟩

/-- **Linked programs are laid out and complete.** Whatever calls were made on a new program, and
whether they succeeded or failed: if the program links, and its image does not reach beyond the last
address, the image passes the check of its layout, with the sort that keeps the order of routines
that share a base, and it holds the globals that were declared and the routines that were ended. A
block contributes its stream if it was closed, and nothing if it was given up or could not be
closed. -/
theorem complete_of_link (hnew : Program.new dataBase dataCells = .ok p) (hbase : 0 ≤ dataBase)
    {calls : List BuildCall} {img : Image}
    (hlink : ((start p).afterAll calls).program.link = .ok img) (hend : ¬img.Overflows) :
    img.checkLayout = .ok () ∧
      img.Holds ((start p).afterAll calls).globals ((start p).afterAll calls).drafts := by
  obtain ⟨hsound, hrun⟩ := (sound_start hnew).afterAll calls
  obtain ⟨hfirst, hnamed, hplace⟩ := charted_start hnew
  generalize (start p).afterAll calls = s at *
  have hdata : 0 ≤ s.program.dataBase.toInt := by
    have hkept : s.program.dataBase = dataBase := (Outline.dataBase_of_run hrun).trans hplace
    rw [hkept]
    exact toInt_nonneg_iff.mp hbase
  have hlinked : s.program.LinksTo s.globals img := ⟨hsound.declared, hlink, hdata, hend⟩
  have hsize : s.outline.code.length < 2 ^ 63 := by
    obtain ⟨hcode, hlimit, hfits⟩ := hlinked.toInt_codeBase
    show s.program.code.toList.length < 2 ^ 63
    rw [Array.length_toList]
    omega
  obtain ⟨hcharted, hnamed⟩ := hfirst.run hnamed hrun hsize
  have hnone := (Program.link_ok hlink).1
  cases hcharted with
  | inside hcurrent => exact nomatch hnone.symm.trans hcurrent
  | between _ hlaid =>
    exact ⟨hlinked.checkLayout hlaid hnamed.distinct, hlinked.holds hlaid hnamed.distinct⟩

/-- Calls of all kinds. Two blocks are closed, one is given up, one has a label that is nowhere, and
one finds its place taken; names are used twice, and a routine is to be shorter than it is. -/
def sampleBuild : List BuildCall :=
  [.declareGlobal "x" 7, .declareGlobal "x" 8, .append #[99],
    .beginRoutine "main", .openBlock 4, .work 0 (.emit "JREL" [.label "end"]) trivial,
    .endRoutine 0, .work 0 (.emit "HOP" []) trivial, .work 0 (.label "end") trivial, .close 0,
    .openBlock 4, .work 1 (.emitOp .ret []) trivial, .discard 1,
    .openBlock 4, .work 2 (.emit "JUMP" [.label "nowhere"]) trivial, .close 2, .discard 2,
    .append #[5], .endRoutine 1, .endRoutine 6,
    .beginRoutine "none", .endRoutine 0,
    .beginRoutine "main", .beginRoutine "tail", .openBlock 4, .work 3 (.emitOp .ret []) trivial,
    .append #[1], .close 3, .discard 3,
    .openBlock 4, .work 4 (.emitOp .ret []) trivial, .close 4, .endRoutine 0]

/-- The sample calls give two routines with cells, and an empty one at the base of the second. -/
theorem complete_of_link_sample : ∃ p img, Program.new 100 2 = .ok p ∧
    ((start p).afterAll sampleBuild).program.link = .ok img ∧ ¬img.Overflows ∧
    img.checkLayout = .ok () ∧ img.cells = #[7, 0, 99, 129, 1, 5, 0, 0, 0, 1, 17] ∧
    img.routineCells "main" = .ok (some #[129, 1, 5, 0, 0, 0]) ∧
    img.routineCells "none" = .ok (some #[]) ∧ img.routineCells "tail" = .ok (some #[1, 17]) := by
  let p : Program := { dataBase := 100, dataCells := 2 }
  have hnew : Program.new 100 2 = .ok p := rfl
  have houtcome : ((start p).afterAll sampleBuild).program.link.toOption.map
      (fun img => (img.base, img.cells)) =
        some (100, #[7, 0, 99, 129, 1, 5, 0, 0, 0, 1, 17]) := by
    decide +kernel
  have hdrafts : ((start p).afterAll sampleBuild).drafts.map (fun d => (d.name, d.cells?)) =
      [("main", some [129, 1, 5, 0, 0, 0]), ("none", some []), ("tail", some [1, 17])] := by
    decide +kernel
  cases hlink : ((start p).afterAll sampleBuild).program.link with
  | error failure =>
    rw [hlink] at houtcome
    cases houtcome
  | ok img =>
    rw [hlink] at houtcome
    obtain ⟨hbase, hcells⟩ := Prod.mk.inj (Option.some.inj houtcome)
    have hend : ¬img.Overflows := by
      unfold Image.Overflows
      rw [hbase, hcells]
      decide
    obtain ⟨hlayout, hholds⟩ := complete_of_link hnew (by decide) hlink hend
    have hread {name : String} {cells : List Cell} (hmem : (name, some cells) ∈
        ((start p).afterAll sampleBuild).drafts.map (fun d => (d.name, d.cells?))) :
        img.routineCells name = .ok (some cells.toArray) := by
      obtain ⟨d, hd, heq⟩ := List.mem_map.mp hmem
      obtain ⟨rfl, hcells⟩ := Prod.mk.inj heq
      obtain ⟨cells', hcells', -, hread⟩ := hholds.streams d hd
      cases hcells.symm.trans hcells'
      exact hread
    rw [hdrafts] at hread
    exact ⟨p, img, hnew, hlink, hend, hlayout, hcells, hread (by simp), hread (by simp),
      hread (by simp)⟩

end Build

end CellMachine
