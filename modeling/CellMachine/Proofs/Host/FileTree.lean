import CellMachine.Host.FileTree

/-!
# Files that were written

A file is put at a place where no folder is, so every path leads where it led before.

* `FileTree.walk_put` — a way through the folders stays when a file is put somewhere.
* `Rehearsal.read_of_write` — **a file that was written is read back**.
-/

namespace CellMachine

namespace FileTree

variable {t : FileTree} {place q : List String} {node : FileNode}

/-- What was put at a place is there. -/
theorem node?_put_self (hplace : place ≠ []) : (t.put place node).node? place = some node := by
  unfold node? put
  rw [if_neg (by simpa using hplace)]
  exact List.lookup_cons_self

/-- Leaving out the entries of another key does not matter to a key. -/
theorem lookup_filter_ne {nodes : List (List String × FileNode)} (hne : q ≠ place) :
    (nodes.filter fun n => n.1 != place).lookup q = nodes.lookup q := by
  induction nodes with
  | nil => rfl
  | cons n rest ih =>
    obtain ⟨key, node⟩ := n
    by_cases hkey : key = place
    · have hq : (q == key) = false := by simpa [hkey] using hne
      rw [List.filter_cons_of_neg (by simp [hkey]), ih, List.lookup_cons, hq]
    · rw [List.filter_cons_of_pos (by simpa using hkey), List.lookup_cons, List.lookup_cons, ih]

/-- Other places stay as they are. -/
theorem node?_put_of_ne (hne : q ≠ place) : (t.put place node).node? q = t.node? q := by
  have hq : (q == place) = false := by simpa using hne
  unfold node? put
  rw [List.lookup_cons, hq, lookup_filter_ne hne]

/-- A way through the folders stays when something is put where no folder is. -/
theorem walk_put (hplace : t.node? place ≠ some .folder) (steps : List String) :
    ∀ {start : List String}, t.walk start steps = .ok q →
      (t.put place node).walk start steps = .ok q := by
  induction steps with
  | nil => exact id
  | cons step rest ih =>
    intro start hwalk
    unfold walk at hwalk ⊢
    cases hstart : t.node? start with
    | none => simp [hstart] at hwalk
    | some n =>
      cases n with
      | file bytes => simp [hstart] at hwalk
      | folder =>
        have hne : start ≠ place := by
          rintro rfl
          exact hplace hstart
        rw [node?_put_of_ne hne, hstart]
        rw [hstart] at hwalk
        simp only at hwalk ⊢
        split at hwalk
        · next hstay => rw [if_pos hstay]; exact ih hwalk
        · next hgo =>
          rw [if_neg hgo]
          split at hwalk
          · next hback => rw [if_pos hback]; exact ih hwalk
          · next hname =>
            rw [if_neg hname]
            cases hfault : nameFault? step with
            | some fault => simp [hfault] at hwalk
            | none => rw [hfault] at hwalk; exact ih hwalk

/-- A path leads where it led before something was put where no folder is. -/
theorem place_put (hplace : t.node? place ≠ some .folder) {folder : List String} {path : String}
    (h : t.place folder path = .ok q) : (t.put place node).place folder path = .ok q := by
  unfold FileTree.place at h ⊢
  cases hfault : pathFault? path with
  | some fault => simp [hfault] at h
  | none => rw [hfault] at h; exact walk_put hplace _ h

/-- The place at which a file is written is the one that its path leads to. -/
theorem place_of_filePlace {folder : List String} {path : String}
    (h : t.filePlace folder path = .ok q) : t.place folder path = .ok q := by
  unfold filePlace at h
  split at h
  · simp at h
  · exact h
  · split at h <;> simp at h

end FileTree

namespace Rehearsal

variable {r r' : Rehearsal} {path : String} {bytes : List UInt8}

/-- Writing a file changes the file tree at one place, where no folder is. -/
theorem write_ok (h : write path bytes r = (.ok (), r')) :
    ∃ place, r.tree.place r.folder path = .ok place ∧ r.tree.node? place ≠ some .folder ∧
      r' = { r with tree := r.tree.put place (.file bytes) } := by
  unfold write at h
  cases hplace : r.tree.filePlace r.folder path with
  | error fault => simp [hplace] at h
  | ok place =>
    rw [hplace] at h
    refine ⟨place, FileTree.place_of_filePlace hplace, ?_⟩
    simp only at h
    split at h
    · simp at h
    · next hfile =>
      exact ⟨by simp [hfile], (Prod.mk.inj h).2.symm⟩
    · next hnone _ =>
      exact ⟨by simp [hnone], (Prod.mk.inj h).2.symm⟩
    · simp at h
    · simp at h

/-- **A file that was written is read back.** -/
theorem read_of_write (h : write path bytes r = (.ok (), r')) : r'.read path = .ok bytes := by
  obtain ⟨place, hplace, hfolder, rfl⟩ := write_ok h
  -- the root is a folder, so the place is not the root
  have hroot : place ≠ [] := by
    rintro rfl
    exact hfolder rfl
  unfold read
  rw [FileTree.place_put hfolder hplace]
  simp only
  rw [FileTree.node?_put_self hroot]

/-- Nothing is said when a file is written. -/
theorem said_of_write (h : write path bytes r = (.ok (), r')) : r'.said = r.said := by
  obtain ⟨_, _, _, rfl⟩ := write_ok h
  rfl

end Rehearsal

end CellMachine
