import CellMachine.Emission.Label
import CellMachine.Emission.Routine

/-!
# What label tables remember

The view of a label table is two functions: `offset?`, where a name is defined, and `pending`,
which cells wait for it. The lemmas here say what noting a use, defining and settling do to the two
of them, and nothing later looks inside a table.

* `offset?_reference`, `pending_reference` — a use queues its cell as long as the label is open.
* `offset?_define`, `pending_define`, `offset?_settle`, `pending_settle` — a definition.
* `Distinct` — each name stands in the table once; every change keeps that.
* `lookup_resolved` — the labels of a finished stream are the defined ones, with their offsets.
* `pending_eq_nil_of_unresolved` — what it means that no label is missing.
-/

namespace CellMachine

/-- In a list whose keys are distinct a look-up finds whatever the list has. -/
theorem lookup_eq_some_of_mem {β : Type} :
    (l : List (String × β)) → (l.map Prod.fst).Nodup → ∀ {k : String} {v : β}, (k, v) ∈ l →
      l.lookup k = some v
  | [], _, _, _, h => absurd h List.not_mem_nil
  | (k', v') :: rest, hnodup, k, v, h => by
    rw [List.map_cons, List.nodup_cons] at hnodup
    rcases List.mem_cons.1 h with heq | hmem
    · cases heq
      exact List.lookup_cons_self
    · have hne : k ≠ k' := by
        rintro rfl
        exact hnodup.1 (List.mem_map.2 ⟨(k, v), hmem, rfl⟩)
      rw [List.lookup_cons, beq_false_of_ne hne]
      exact lookup_eq_some_of_mem rest hnodup.2 hmem

namespace LabelTable

/-! ### Changing one label -/

/-- A change of one label is found under its name and under no other. -/
theorem find?_updateLabels (name : String) {f : Label → Label} (hf : ∀ l, (f l).name = l.name)
    (n : String) : (ls : List Label) →
    (updateLabels name f ls).find? (fun l => l.name == n) =
      if n = name then some (f ((ls.find? fun l => l.name == name).getD { name }))
      else ls.find? fun l => l.name == n
  | [] => by
    by_cases hn : n = name
    · simp [updateLabels, hf, hn]
    · simp [updateLabels, hf, hn, Ne.symm hn]
  | l :: rest => by
    have ih := find?_updateLabels name hf n rest
    unfold updateLabels
    by_cases hl : l.name = name
    · rw [if_pos hl]
      by_cases hn : n = name
      · simp [hf, hn, hl]
      · simp [hf, hn, Ne.symm hn, hl]
    · rw [if_neg hl, List.find?_cons, ih]
      by_cases hn : n = name
      · rw [if_pos hn, if_pos hn, hn, beq_false_of_ne hl, List.find?_cons, beq_false_of_ne hl]
      · rw [if_neg hn, if_neg hn, List.find?_cons]

/-- A change of one label is found under its name and under no other. -/
theorem find?_update (t : LabelTable) (name : String) {f : Label → Label}
    (hf : ∀ l, (f l).name = l.name) (n : String) :
    (t.update name f).find? n =
      if n = name then some (f ((t.find? name).getD { name })) else t.find? n :=
  find?_updateLabels name hf n t.labels

/-- The offset of a label that may be new. -/
theorem offset?_getD (t : LabelTable) (name : String) :
    ((t.find? name).getD { name }).offset? = t.offset? name := by
  unfold offset?
  cases t.find? name <;> rfl

/-- The waiting cells of a label that may be new. -/
theorem pending_getD (t : LabelTable) (name : String) :
    ((t.find? name).getD { name }).pending = t.pending name := by
  unfold pending
  cases t.find? name <;> rfl

/-- The offsets after a change of one label. -/
theorem offset?_update (t : LabelTable) (name : String) {f : Label → Label}
    (hf : ∀ l, (f l).name = l.name) (n : String) :
    (t.update name f).offset? n =
      if n = name then (f ((t.find? name).getD { name })).offset? else t.offset? n := by
  unfold offset?
  rw [find?_update t name hf]
  split <;> rfl

/-- The waiting cells after a change of one label. -/
theorem pending_update (t : LabelTable) (name : String) {f : Label → Label}
    (hf : ∀ l, (f l).name = l.name) (n : String) :
    (t.update name f).pending n =
      if n = name then (f ((t.find? name).getD { name })).pending else t.pending n := by
  unfold pending
  rw [find?_update t name hf]
  by_cases hn : n = name
  · rw [if_pos hn, if_pos hn]
  · rw [if_neg hn, if_neg hn]

/-! ### Uses and definitions -/

/-- A use defines nothing. -/
@[simp] theorem offset?_reference (t : LabelTable) (name : String) (site : Nat)
    (rule : PatchRule) (n : String) : (t.reference name site rule).2.offset? n = t.offset? n := by
  unfold reference
  rcases t.offset? name with _ | offset
  · refine (offset?_update t name ?_ n).trans ?_
    · exact fun _ => rfl
    · by_cases hn : n = name
      · rw [if_pos hn, hn]
        exact offset?_getD t name
      · rw [if_neg hn]
  · rfl

/-- A use of an open label queues its cell; a use of a defined one queues nothing. -/
theorem pending_reference (t : LabelTable) (name : String) (site : Nat) (rule : PatchRule)
    (n : String) :
    (t.reference name site rule).2.pending n =
      if n = name ∧ t.offset? name = none then t.pending n ++ [⟨site, rule⟩]
      else t.pending n := by
  unfold reference
  rcases t.offset? name with _ | offset
  · refine (pending_update t name ?_ n).trans ?_
    · exact fun _ => rfl
    · by_cases hn : n = name
      · rw [if_pos hn, if_pos ⟨hn, rfl⟩, hn]
        exact congrArg (· ++ [(⟨site, rule⟩ : Site)]) (pending_getD t name)
      · rw [if_neg hn, if_neg fun h => hn h.1]
  · rw [if_neg]
    rintro ⟨_, ⟨⟩⟩

/-- The cell to write for a use: the operand if the label is defined, and else a placeholder. -/
theorem reference_fst (t : LabelTable) (name : String) (site : Nat) (rule : PatchRule) :
    (t.reference name site rule).1 =
      (t.offset? name).elim 0 fun offset => t.operand rule offset site := by
  unfold reference
  cases t.offset? name <;> rfl

/-- A use leaves the origin alone. -/
@[simp] theorem origin_reference (t : LabelTable) (name : String) (site : Nat)
    (rule : PatchRule) : (t.reference name site rule).2.origin = t.origin := by
  unfold reference
  cases t.offset? name <;> rfl

/-- A definition is seen under its name. -/
theorem offset?_define (t : LabelTable) (name : String) (offset : Nat) (n : String) :
    (t.define name offset).offset? n = if n = name then some offset else t.offset? n := by
  refine (offset?_update t name ?_ n).trans rfl
  exact fun _ => rfl

/-- A definition alone leaves the waiting cells where they are. -/
theorem pending_define (t : LabelTable) (name : String) (offset : Nat) (n : String) :
    (t.define name offset).pending n = t.pending n := by
  refine (pending_update t name ?_ n).trans ?_
  · exact fun _ => rfl
  · by_cases hn : n = name
    · rw [if_pos hn, hn]
      exact pending_getD t name
    · rw [if_neg hn]

/-- Settling a label leaves its offset alone. -/
theorem offset?_settle (t : LabelTable) (name : String) (n : String) :
    (t.settle name).offset? n = t.offset? n := by
  refine (offset?_update t name ?_ n).trans ?_
  · exact fun _ => rfl
  · by_cases hn : n = name
    · rw [if_pos hn, hn]
      exact offset?_getD t name
    · rw [if_neg hn]

/-- Settling a label forgets the cells that waited for it. -/
theorem pending_settle (t : LabelTable) (name : String) (n : String) :
    (t.settle name).pending n = if n = name then [] else t.pending n := by
  refine (pending_update t name ?_ n).trans rfl
  exact fun _ => rfl

/-! ### Tables with distinct names -/

/-- Each name stands in the table once. -/
def Distinct (t : LabelTable) : Prop := (t.labels.map Label.name).Nodup

/-- A change of one label adds no name but its own. -/
theorem map_name_updateLabels (name : String) {f : Label → Label}
    (hf : ∀ l, (f l).name = l.name) : (ls : List Label) →
    (updateLabels name f ls).map Label.name =
      if name ∈ ls.map Label.name then ls.map Label.name else ls.map Label.name ++ [name]
  | [] => by simp [updateLabels, hf]
  | l :: rest => by
    have ih := map_name_updateLabels name hf rest
    unfold updateLabels
    by_cases hl : l.name = name
    · simp [hl, hf]
    · rw [if_neg hl, List.map_cons, ih, List.map_cons]
      by_cases hr : name ∈ rest.map Label.name
      · rw [if_pos hr, if_pos (List.mem_cons_of_mem _ hr)]
      · rw [if_neg hr, if_neg (by simpa [Ne.symm hl] using hr), List.cons_append]

/-- Changing a label keeps the names distinct. -/
theorem Distinct.update {t : LabelTable} (h : t.Distinct) (name : String) {f : Label → Label}
    (hf : ∀ l, (f l).name = l.name) : (t.update name f).Distinct := by
  show ((updateLabels name f t.labels).map Label.name).Nodup
  rw [map_name_updateLabels name hf]
  by_cases hn : name ∈ t.labels.map Label.name
  · rw [if_pos hn]
    exact h
  · rw [if_neg hn, List.nodup_append]
    refine ⟨h, by simp, ?_⟩
    rintro a ha b hb rfl
    rw [List.mem_singleton] at hb
    exact hn (hb ▸ ha)

/-- A use keeps the names distinct. -/
theorem Distinct.reference {t : LabelTable} (h : t.Distinct) (name : String) (site : Nat)
    (rule : PatchRule) : (t.reference name site rule).2.Distinct := by
  unfold LabelTable.reference
  rcases t.offset? name with _ | offset
  · exact h.update name fun _ => rfl
  · exact h

/-- In a table with distinct names a look-up finds whatever label the table has. -/
theorem Distinct.find?_eq_some {t : LabelTable} (h : t.Distinct) {l : Label}
    (hl : l ∈ t.labels) : t.find? l.name = some l := by
  unfold find?
  obtain ⟨ls, hls⟩ : ∃ ls, ls = t.labels := ⟨_, rfl⟩
  unfold Distinct at h
  rw [← hls] at h hl ⊢
  clear hls
  induction ls with
  | nil => cases hl
  | cons l' rest ih =>
    rw [List.map_cons, List.nodup_cons] at h
    rcases List.mem_cons.1 hl with rfl | hmem
    · simp
    · have hne : l'.name ≠ l.name := fun heq => h.1 (heq ▸ List.mem_map_of_mem hmem)
      rw [List.find?_cons, beq_false_of_ne hne]
      exact ih hmem h.2

/-- The defined labels are some of all labels, in their order. -/
theorem defined_sublist : (ls : List Label) →
    ((ls.filterMap fun l => l.offset?.map fun o => (l.name, o)).map Prod.fst).Sublist
      (ls.map Label.name)
  | [] => .slnil
  | l :: rest => by
    rcases ho : l.offset? with _ | o
    · simp only [List.filterMap_cons, ho, Option.map_none, List.map_cons]
      exact (defined_sublist rest).cons _
    · simp only [List.filterMap_cons, ho, Option.map_some, List.map_cons]
      exact (defined_sublist rest).cons_cons _

/-- The labels of a finished stream are the defined ones, with their offsets. -/
theorem Distinct.lookup_resolved {t : LabelTable} (h : t.Distinct) (name : String) :
    t.resolved.lookup name = t.offset? name := by
  have hmem {n : String} {o : Nat} : (n, o) ∈ t.resolved ↔ ∃ l ∈ t.labels, l.name = n ∧
      l.offset? = some o := by
    unfold resolved
    rw [List.mem_mergeSort, List.mem_filterMap]
    simp only [Option.map_eq_some_iff, Prod.mk.injEq]
    constructor
    · rintro ⟨l, hl, o', ho, hn, rfl⟩
      exact ⟨l, hl, hn, ho⟩
    · rintro ⟨l, hl, hn, ho⟩
      exact ⟨l, hl, o, ho, hn, rfl⟩
  have hkeys : (t.resolved.map Prod.fst).Nodup := by
    have hperm := ((t.labels.filterMap fun l => l.offset?.map fun o => (l.name, o)).mergeSort_perm
      fun a b => !decide (b.1 < a.1)).map Prod.fst
    exact hperm.nodup_iff.2 (List.Nodup.sublist (defined_sublist t.labels) h)
  rcases ho : t.offset? name with _ | o
  · rw [List.lookup_eq_none_iff]
    rintro ⟨n, o⟩ hno
    obtain ⟨l, hl, rfl, hlo⟩ := hmem.1 hno
    rw [bne_iff_ne]
    rintro rfl
    unfold offset? at ho
    rw [h.find?_eq_some hl] at ho
    rw [Option.bind_some, hlo] at ho
    cases ho
  · refine lookup_eq_some_of_mem _ hkeys (hmem.2 ?_)
    unfold offset? at ho
    rw [Option.bind_eq_some_iff] at ho
    obtain ⟨l, hl, hlo⟩ := ho
    exact ⟨l, List.mem_of_find?_eq_some hl, by simpa using List.find?_some hl, hlo⟩

/-- If no label is missing, no cell waits for a label without a definition. -/
theorem pending_eq_nil_of_unresolved {t : LabelTable} (hu : t.unresolved = [])
    {name : String} (hn : t.offset? name = none) : t.pending name = [] := by
  unfold pending
  rcases hf : t.find? name with _ | l
  · rfl
  · have hl : l ∈ t.labels := List.mem_of_find?_eq_some hf
    have ho : l.offset? = none := by
      unfold offset? at hn
      rw [hf] at hn
      exact hn
    rcases hp : l.pending with _ | ⟨site, sites⟩
    · exact hp
    · have hmem : l.name ∈ t.unresolved := by
        unfold unresolved
        rw [List.mem_mergeSort, List.mem_map]
        exact ⟨l, List.mem_filter.2 ⟨hl, by simp [ho, hp]⟩, rfl⟩
      rw [hu] at hmem
      cases hmem

end LabelTable

end CellMachine
