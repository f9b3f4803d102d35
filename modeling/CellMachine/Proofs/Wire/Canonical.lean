import CellMachine.Proofs.Wire.RoundTrip

/-!
# Nothing but the image that was written

An image whose lists are too long is written all the same, and its bytes are refused. Between the
two there is nothing: what is read from the bytes of an image, if anything is, is the image. So no
two images have the same bytes, and an image without cells is never taken for one whose list of
cells is empty.

`NothingBut` says this of a reader, and it is handed from the parts of an item to the whole as
`Yields` is; but a list may have any number of entries that a head can hold.

* `Cbor.Reader.list_nothingBut`, `Cbor.Reader.record_nothingBut` — lists and records.
* `Image.Measured` — an image whose lengths are numbers of 64 bits.
* `Image.eq_of_ofBytes_toBytes` — **what is read from the bytes of an image is the image.**
-/

namespace CellMachine

namespace Cbor.Reader

variable {α β : Type}

/-- Of these bytes a reader makes `a` or nothing at all, whatever stands behind them. -/
def NothingBut (x : Reader α) (bytes : List UInt8) (a : α) : Prop :=
  ∀ rest r, x (bytes ++ rest) = some r → r = (a, rest)

/-- A reader that makes something of bytes makes nothing else of them. -/
theorem Yields.nothingBut {x : Reader α} {bytes : List UInt8} {a : α} (h : Yields x bytes a) :
    NothingBut x bytes a := by
  intro rest r hread
  rw [h rest] at hread
  exact (Option.some.inj hread).symm

namespace NothingBut

/-- A reader that refuses everything. -/
theorem failure (bytes : List UInt8) (a : α) : NothingBut (failure : Reader α) bytes a :=
  fun _ _ hread => nomatch hread

/-- One reader after another. -/
theorem bind {x : Reader α} {f : α → Reader β} {bytes more : List UInt8} {a : α} {b : β}
    (hx : NothingBut x bytes a) (hf : NothingBut (f a) more b) :
    NothingBut (x >>= f) (bytes ++ more) b := by
  intro rest r hread
  have hread : (x (bytes ++ (more ++ rest)) >>= fun s => f s.1 s.2) = some r := by
    rwa [← List.append_assoc]
  obtain ⟨s, hs, hread⟩ := Option.bind_eq_some_iff.mp hread
  obtain rfl := hx (more ++ rest) s hs
  exact hf rest r hread

/-- A reader after which nothing more is read. -/
theorem bind_pure {x : Reader α} {f : α → β} {bytes : List UInt8} {a : α}
    (hx : NothingBut x bytes a) : NothingBut (x >>= fun a => pure (f a)) bytes (f a) := by
  have h := hx.bind (f := fun a => pure (f a)) (Yields.pure (f a)).nothingBut
  rwa [List.append_nil] at h

end NothingBut

/-- An item that begins with a head of its own. -/
theorem leveled_nothingBut {inner? : Option (Reader Item)} {major n : Nat} (hmajor : major < 8)
    (htag : major ≠ 6) (hn : n < UInt64.size) {bytes : List UInt8} {i : Item}
    (h : ∀ width, NothingBut (plain inner? { major, argument? := some n, width }) bytes i) :
    NothingBut (leveled inner?) (Cbor.head major n ++ bytes) i := by
  obtain ⟨width, hhead⟩ := head_yields hmajor hn
  refine hhead.nothingBut.bind ?_
  rw [if_pos htag]
  exact h width

/-- As many things as were written. -/
theorem times_nothingBut {one : Reader α} {written : List (List UInt8)} {as : List α}
    (h : List.Forall₂ (NothingBut one) written as) :
    ∀ before : Array α, NothingBut (times one written.length before) written.flatten
      (before.toList ++ as) := by
  induction h with
  | nil =>
    intro before
    rw [List.append_nil]
    exact (Yields.pure before.toList).nothingBut
  | @cons bytes a written as hfirst _ ih =>
    intro before
    have hrest := ih (before.push a)
    rw [Array.toList_push, List.append_assoc, List.singleton_append] at hrest
    exact hfirst.bind hrest

/-- Entries, however many there are. -/
theorem entries_nothingBut {one : Reader α} {written : List (List UInt8)} {as : List α}
    (h : List.Forall₂ (NothingBut one) written as) :
    NothingBut (entries one (some written.length)) written.flatten as := by
  -- too many entries are refused at their head, before any of them is read
  by_cases hfew : written.length ≤ maxEntries
  · simp only [entries, if_pos hfew]
    exact times_nothingBut h #[]
  · simp only [entries, if_neg hfew]
    exact .failure _ as

/-- **A list** whose length can be written is read back or refused, if its members are. -/
theorem list_nothingBut {inner : Reader Item} {written : List (List UInt8)} {items : List Item}
    (hlength : written.length < UInt64.size) (h : List.Forall₂ (NothingBut inner) written items) :
    NothingBut (leveled (some inner)) (list written) (.list items) :=
  leveled_nothingBut (by decide) (by decide) hlength fun _ =>
    (entries_nothingBut h).bind_pure (f := Item.list)

/-- A written field of which nothing else is read: its name can be written, and of its contents
nothing else is read. -/
inductive FieldNothingBut (levels : Nat) : Nat × List UInt8 → Nat × Item → Prop
  | intro {name : Nat} {bytes : List UInt8} {i : Item} :
    name < UInt64.size → NothingBut (item levels) bytes i →
      FieldNothingBut levels (name, bytes) (name, i)

/-- A field is an entry of a map. -/
theorem entry_nothingBut {levels : Nat} {written : Nat × List UInt8} {field : Nat × Item}
    (h : FieldNothingBut levels written field) :
    NothingBut (entry (item levels)) (Cbor.head 0 written.1 ++ written.2)
      (.unsigned field.1, field.2) := by
  obtain ⟨hname, hvalue⟩ := h
  exact (name_yields levels hname).nothingBut.bind (hvalue.bind_pure (f := fun v => (_, v)))

/-- **A record** is read back or refused, if its fields are. -/
theorem record_nothingBut {levels : Nat} {written : List (Nat × List UInt8)}
    {fields : List (Nat × Item)} (hlength : written.length < UInt64.size)
    (h : List.Forall₂ (FieldNothingBut levels) written fields) :
    NothingBut (item (levels + 1)) (record written) (.ofFields fields) := by
  have hentries : List.Forall₂ (NothingBut (entry (item levels)))
      (written.map fun w => Cbor.head 0 w.1 ++ w.2)
      (fields.map fun f => (Item.unsigned f.1, f.2)) := by
    rw [List.forall₂_map_left_iff, List.forall₂_map_right_iff]
    exact h.imp fun _ _ => entry_nothingBut
  have hall := entries_nothingBut hentries
  rw [List.length_map] at hall
  unfold record
  rw [List.flatMap_def]
  exact leveled_nothingBut (by decide) (by decide) hlength fun _ =>
    hall.bind_pure (f := Item.map)

end Cbor.Reader

/-- Bytes of which nothing but one item is read consist of no other. -/
theorem Cbor.eq_of_item?_of_nothingBut {bytes : List UInt8} {i j : Cbor.Item}
    (h : Cbor.Reader.NothingBut (Cbor.Reader.item Cbor.maxLevels) bytes i)
    (hitem : Cbor.item? bytes = some j) : j = i := by
  unfold Cbor.item? at hitem
  split at hitem
  · next i' hread =>
    rw [← List.append_nil bytes] at hread
    have hpair := h [] _ hread
    cases hitem
    exact congrArg Prod.fst hpair
  · cases hitem

namespace Image

open CellMachine.Cbor

/-- An image whose lengths are numbers of 64 bits, as they are for all that a store can hold. -/
structure Measured (img : Image) : Prop where
  cells : img.cells.size < UInt64.size
  globals : img.globals.length < UInt64.size
  routines : img.routines.length < UInt64.size
  names : img.NamesWithin (UInt64.size - 1)

/-- The cells, however many there are. -/
theorem cells_nothingBut (levels : Nat) {cells? : Option (Array Cell)}
    (h : (cells?.getD #[]).size < UInt64.size) :
    Reader.NothingBut (Reader.item (levels + 1)) (cellBytes cells?) (cellsItem cells?) := by
  cases cells? with
  | none => exact (Reader.null_yields _).nothingBut
  | some cells =>
    refine Reader.list_nothingBut ?_ ?_
    · simpa using h
    · exact (forall₂_yields fun v _ => word_yields levels v).imp fun _ _ => Reader.Yields.nothingBut

/-- The field of a list, however long the list is. -/
theorem listField_nothingBut {α : Type} {levels name : Nat} {write : α → List UInt8}
    {toItem : α → Cbor.Item} {as : List α} (hname : name < UInt64.size)
    (hlength : as.length < UInt64.size)
    (h : ∀ a ∈ as, Reader.Yields (Reader.item levels) (write a) (toItem a)) :
    List.Forall₂ (Reader.FieldNothingBut (levels + 1)) (listField name (as.map write))
      (itemField name (as.map toItem)) := by
  unfold listField itemField
  cases as with
  | nil => exact .nil
  | cons a as =>
    refine .cons ⟨hname, Reader.list_nothingBut ?_ ?_⟩ .nil
    · rwa [List.length_map]
    · exact (forall₂_yields h).imp fun _ _ => Reader.Yields.nothingBut

/-- **The bytes of an image consist of its item or of none.** -/
theorem eq_item_of_item?_toBytes {img : Image} (h : img.Measured) {i : Cbor.Item}
    (hitem : item? img.toBytes = some i) : i = img.item := by
  have hmost : UInt64.size - 1 < UInt64.size := by decide
  have hfields : List.Forall₂ (Reader.FieldNothingBut 31)
      ([(1, integer img.version.toNat), (2, integer img.base.toInt), (3, cellBytes img.cells?)] ++
        listField 4 (img.globals.map globalBytes) ++ listField 5 (img.routines.map routineBytes))
      img.itemFields := by
    refine List.rel_append (List.rel_append ?_ ?_) ?_
    · exact .cons ⟨by decide, (version_yields img).nothingBut⟩
        (.cons ⟨by decide, (word_yields 31 img.base).nothingBut⟩
          (.cons ⟨by decide, cells_nothingBut 30 h.cells⟩ .nil))
    · exact listField_nothingBut (by decide) h.globals fun g hg =>
        global_yields 28 (Nat.lt_of_le_of_lt (h.names.globals g hg) hmost)
    · exact listField_nothingBut (by decide) h.routines fun r hr =>
        routine_yields 28 (Nat.lt_of_le_of_lt (h.names.routines r hr) hmost)
  refine eq_of_item?_of_nothingBut (Reader.record_nothingBut ?_ hfields) hitem
  have hfour := length_listField_le 4 (img.globals.map globalBytes)
  have hfive := length_listField_le 5 (img.routines.map routineBytes)
  have h64 : UInt64.size = 18446744073709551616 := rfl
  rw [List.length_append, List.length_append]
  simp only [List.length_cons, List.length_nil]
  omega

/-- **What is read from the bytes of an image is the image.** -/
theorem eq_of_ofBytes_toBytes [BaseOrder] {img again : Image} (h : img.Measured)
    (hread : ofBytes img.toBytes = .ok again) : again = img := by
  obtain ⟨⟨i, hitem, himg⟩, -, -⟩ := item_of_ofBytes hread
  rw [eq_item_of_item?_toBytes h hitem, ofItem?_item] at himg
  exact (Option.some.inj himg).symm

end Image

end CellMachine
