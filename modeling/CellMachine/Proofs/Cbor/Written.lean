import CellMachine.Cbor.Value
import Mathlib.Algebra.Group.Nat.Defs
import Mathlib.Data.List.Forall2

/-!
# Written items are read back

Writing and reading are two recursions of their own: what is written has the shortest head that
there is for it, and what is read may have any head. `Yields` says that a reader makes something of
exactly these bytes, whatever stands behind them; so the readers of the parts of an item give a
reader of the whole (`Yields.bind`).

* `ofBigEndian_bigEndian` — a number is read from its bytes if they are enough.
* `Reader.head_yields` — **the shortest head is read back**, in each of its five widths.
* `Reader.integer_yields`, `Reader.text_yields`, `Reader.bytes_yields`, `Reader.list_yields`,
  `Reader.record_yields` — so is every item that is written, if its lists are short enough to be
  read.
-/

namespace CellMachine.Cbor

/-! ### Numbers in bytes -/

/-- A number takes as many bytes as it is given. -/
theorem length_bigEndian (width n : Nat) : (bigEndian width n).length = width := by
  induction width generalizing n with
  | zero => rfl
  | succ width ih => simp [bigEndian, ih]

/-- One more byte at the end. -/
theorem ofBigEndian_concat (bytes : List UInt8) (b : UInt8) :
    ofBigEndian (bytes ++ [b]) = 256 * ofBigEndian bytes + b.toNat := by
  simp [ofBigEndian]

/-- **A number is read from its bytes** if they are enough for it. -/
theorem ofBigEndian_bigEndian {width : Nat} : ∀ {n : Nat}, n < 256 ^ width →
    ofBigEndian (bigEndian width n) = n := by
  induction width with
  | zero =>
    intro n hn
    have hzero : n = 0 := by simpa using hn
    rw [hzero]
    rfl
  | succ width ih =>
    intro n hn
    have hrest : n / 256 < 256 ^ width := by
      rw [Nat.div_lt_iff_lt_mul (by decide), ← Nat.pow_succ]
      exact hn
    have hlast : (UInt8.ofNat n).toNat = n % 256 := UInt8.toNat_ofNat'
    rw [bigEndian, ofBigEndian_concat, ih hrest, hlast]
    omega

namespace Reader

variable {α β : Type}

/-- A reader makes `a` of exactly these bytes, whatever stands behind them. -/
def Yields (x : Reader α) (bytes : List UInt8) (a : α) : Prop :=
  ∀ rest, x (bytes ++ rest) = some (a, rest)

namespace Yields

/-- A reader that reads nothing. -/
theorem pure (a : α) : Yields (Pure.pure a) [] a := fun _ => rfl

/-- One reader after another reads the bytes of both. -/
theorem bind {x : Reader α} {f : α → Reader β} {bytes more : List UInt8} {a : α} {b : β}
    (hx : Yields x bytes a) (hf : Yields (f a) more b) : Yields (x >>= f) (bytes ++ more) b := by
  intro rest
  show (x (bytes ++ more ++ rest) >>= fun r => f r.1 r.2) = some (b, rest)
  rw [List.append_assoc, hx (more ++ rest)]
  exact hf rest

/-- A reader after which nothing more is read. -/
theorem bind_pure {x : Reader α} {f : α → β} {bytes : List UInt8} {a : α} (hx : Yields x bytes a) :
    Yields (x >>= fun a => Pure.pure (f a)) bytes (f a) := by
  have h := hx.bind (f := fun a => Pure.pure (f a)) (Yields.pure (f a))
  rwa [List.append_nil] at h

end Yields

/-- One byte is read. -/
theorem byte_yields (b : UInt8) : Yields byte [b] b := fun _ => rfl

/-- As many bytes are read as there are. -/
theorem take_yields {n : Nat} {bytes : List UInt8} (h : bytes.length = n) :
    Yields (take n) bytes bytes := by
  intro rest
  subst h
  simp [take]

/-! ### Heads -/

/-- The first byte of a head holds its major type and its low bits. -/
theorem toNat_first {major low : Nat} (hmajor : major < 8) (hlow : low < 32) :
    (UInt8.ofNat (32 * major + low)).toNat / 32 = major ∧
      (UInt8.ofNat (32 * major + low)).toNat % 32 = low := by
  have hbyte : (UInt8.ofNat (32 * major + low)).toNat = (32 * major + low) % 256 :=
    UInt8.toNat_ofNat'
  rw [hbyte]
  omega

/-- A head is read whose first byte stands for an argument that is read after it. -/
theorem head_of_argument {major low : Nat} (hmajor : major < 8) (hlow : low < 32)
    {bytes : List UInt8} {argument? : Option Nat} {width : Nat}
    (h : Yields (argument low) bytes (argument?, width)) :
    Yields head (UInt8.ofNat (32 * major + low) :: bytes) { major, argument?, width } := by
  obtain ⟨hdiv, hmod⟩ := toNat_first hmajor hlow
  refine Yields.bind (byte_yields _) ?_
  rw [hdiv, hmod]
  exact h.bind_pure (f := fun r => { major, argument? := r.1, width := r.2 : Head })

/-- An argument that stands in the bytes after the first one. -/
theorem argument_yields (low : Nat) {n : Nat} (hlow : 24 ≤ low) (hhigh : low < 28)
    (hn : n < 256 ^ (1 <<< (low - 24))) :
    Yields (argument low) (bigEndian (1 <<< (low - 24)) n) (some n, 1 <<< (low - 24)) := by
  have htake := take_yields (length_bigEndian (1 <<< (low - 24)) n)
  have h := htake.bind_pure (f := fun b => (some (ofBigEndian b), 1 <<< (low - 24)))
  rw [ofBigEndian_bigEndian hn] at h
  unfold argument
  rw [if_neg (by omega), if_pos hhigh]
  exact h

/-- **The shortest head is read back.** -/
theorem head_yields {major n : Nat} (hmajor : major < 8) (hn : n < UInt64.size) :
    ∃ width, Yields head (Cbor.head major n) { major, argument? := some n, width } := by
  have h8 : UInt8.size = 256 := rfl
  have h16 : UInt16.size = 65536 := rfl
  have h32 : UInt32.size = 4294967296 := rfl
  have h64 : UInt64.size = 18446744073709551616 := rfl
  unfold Cbor.head
  by_cases hdirect : n < 24
  · rw [if_pos hdirect]
    refine ⟨0, head_of_argument hmajor (by omega) ?_⟩
    unfold argument
    rw [if_pos hdirect]
    exact .pure _
  rw [if_neg hdirect]
  by_cases hone : n < UInt8.size
  · rw [if_pos hone]
    exact ⟨1, head_of_argument hmajor (by decide) (argument_yields 24 (by decide)
      (by decide) (by simpa [h8] using hone))⟩
  rw [if_neg hone]
  by_cases htwo : n < UInt16.size
  · rw [if_pos htwo]
    exact ⟨2, head_of_argument hmajor (by decide) (argument_yields 25 (by decide)
      (by decide) (by simpa [h16] using htwo))⟩
  rw [if_neg htwo]
  by_cases hfour : n < UInt32.size
  · rw [if_pos hfour]
    exact ⟨4, head_of_argument hmajor (by decide) (argument_yields 26 (by decide)
      (by decide) (by simpa [h32] using hfour))⟩
  rw [if_neg hfour]
  exact ⟨8, head_of_argument hmajor (by decide) (argument_yields 27 (by decide)
    (by decide) (by simpa [h64] using hn))⟩

/-! ### Items -/

/-- An item that begins with a head of its own is read by what reads its contents. -/
theorem leveled_yields {inner? : Option (Reader Item)} {major n : Nat} (hmajor : major < 8)
    (htag : major ≠ 6) (hn : n < UInt64.size) {bytes : List UInt8} {i : Item}
    (h : ∀ width, Yields (plain inner? { major, argument? := some n, width }) bytes i) :
    Yields (leveled inner?) (Cbor.head major n ++ bytes) i := by
  obtain ⟨width, hhead⟩ := head_yields hmajor hn
  refine hhead.bind ?_
  rw [if_pos htag]
  exact h width

/-- Nothing is read back. -/
theorem null_yields (inner? : Option (Reader Item)) : Yields (leveled inner?) null (.simple 22) :=
  fun _ => rfl

end Reader

/-- The item of a whole number. -/
def Item.ofInt (n : Int) : Item :=
  if n < 0 then .negative (-1 - n).toNat else .unsigned n.toNat

/-- The bytes that are left of an array of bytes, put behind those that were seen. -/
theorem toList_loop (bytes : ByteArray) (i : Nat) (seen : List UInt8) :
    ByteArray.toList.loop bytes i seen = seen.reverse ++ bytes.data.toList.drop i := by
  induction i, seen using ByteArray.toList.loop.induct bytes with
  | case1 i seen hi ih =>
    have hsize : i < bytes.data.toList.length := hi
    have hbyte : bytes.get! i = bytes.data.toList.get ⟨i, hsize⟩ := by
      show bytes.data[i]! = _
      rw [getElem!_pos bytes.data i hi]
      rfl
    rw [ByteArray.toList.loop, if_pos hi, ih, hbyte, List.drop_eq_getElem_cons hsize]
    simp
  | case2 i seen hi =>
    have hsize : bytes.data.toList.length ≤ i := Nat.not_lt.mp hi
    rw [ByteArray.toList.loop, if_neg hi, List.drop_eq_nil_of_le hsize, List.append_nil]

/-- An array of bytes as a list. -/
theorem toList_eq (bytes : ByteArray) : bytes.toList = bytes.data.toList := by
  rw [ByteArray.toList, toList_loop]
  simp

/-- The item of a text. -/
def Item.ofText (s : String) : Item := .text [s.toUTF8.toList]

/-- The item of a record. -/
def Item.ofFields (fields : List (Nat × Item)) : Item :=
  .map (fields.map fun f => (.unsigned f.1, f.2))

namespace Reader

/-- **A whole number of 64 bits is read back**, with or without a sign. -/
theorem integer_yields (inner? : Option (Reader Item)) {n : Int} (hlow : -UInt64.size ≤ n)
    (hhigh : n < UInt64.size) : Yields (leveled inner?) (integer n) (.ofInt n) := by
  unfold integer Item.ofInt
  by_cases hn : n < 0
  · rw [if_pos hn, if_pos hn, ← List.append_nil (Cbor.head 1 _)]
    exact leveled_yields (by decide) (by decide) (by omega) fun _ => .pure _
  · rw [if_neg hn, if_neg hn, ← List.append_nil (Cbor.head 0 _)]
    exact leveled_yields (by decide) (by decide) (by omega) fun _ => .pure _

/-- **A text is read back** if its length can be written. -/
theorem text_yields (inner? : Option (Reader Item)) {s : String}
    (hs : s.utf8ByteSize < UInt64.size) :
    Yields (leveled inner?) (text s) (.ofText s) := by
  have hlength : s.toUTF8.toList.length = s.utf8ByteSize := by
    rw [toList_eq]
    rfl
  refine leveled_yields (by decide) (by decide) hs fun _ => ?_
  exact ((take_yields hlength).bind_pure (f := fun b => [b])).bind_pure (f := Item.text)

/-- **A string of bytes is read back** if its length can be written. -/
theorem bytes_yields (inner? : Option (Reader Item)) {content : List UInt8}
    (h : content.length < UInt64.size) :
    Yields (leveled inner?) (bytes content) (.bytes [content]) := by
  refine leveled_yields (by decide) (by decide) h fun _ => ?_
  exact ((take_yields rfl).bind_pure (f := fun b => [b])).bind_pure (f := Item.bytes)

/-- As many things are read as were written. -/
theorem times_yields {one : Reader α} {written : List (List UInt8)} {as : List α}
    (h : List.Forall₂ (Yields one) written as) :
    ∀ before : Array α, Yields (times one written.length before) written.flatten
      (before.toList ++ as) := by
  induction h with
  | nil =>
    intro before
    rw [List.append_nil]
    exact .pure before.toList
  | @cons bytes a written as hfirst _ ih =>
    intro before
    have hrest := ih (before.push a)
    rw [Array.toList_push, List.append_assoc, List.singleton_append] at hrest
    exact hfirst.bind hrest

/-- Entries are read back if there are not too many of them. -/
theorem entries_yields {one : Reader α} {written : List (List UInt8)} {as : List α}
    (hfew : written.length ≤ maxEntries) (h : List.Forall₂ (Yields one) written as) :
    Yields (entries one (some written.length)) written.flatten as := by
  have htimes := times_yields h #[]
  simp only [entries, if_pos hfew]
  exact htimes

/-- A number of entries can be written as a number. -/
theorem lt_size_of_few {n : Nat} (h : n ≤ maxEntries) : n < UInt64.size :=
  Nat.lt_of_le_of_lt h (by decide)

/-- **A list is read back** if it is not too long and its members are. -/
theorem list_yields {inner : Reader Item} {written : List (List UInt8)} {items : List Item}
    (hfew : written.length ≤ maxEntries) (h : List.Forall₂ (Yields inner) written items) :
    Yields (leveled (some inner)) (list written) (.list items) :=
  leveled_yields (by decide) (by decide) (lt_size_of_few hfew) fun _ =>
    (entries_yields hfew h).bind_pure (f := Item.list)

/-- A written field is read back: its name can be written, and its contents are read back. -/
inductive FieldYields (levels : Nat) : Nat × List UInt8 → Nat × Item → Prop
  | intro {name : Nat} {bytes : List UInt8} {i : Item} :
    name < UInt64.size → Yields (item levels) bytes i → FieldYields levels (name, bytes) (name, i)

/-- The name of a field is read back, at whatever level it stands. -/
theorem name_yields (levels : Nat) {name : Nat} (h : name < UInt64.size) :
    Yields (item levels) (Cbor.head 0 name) (.unsigned name) := by
  rw [← List.append_nil (Cbor.head 0 name)]
  cases levels with
  | zero => exact leveled_yields (by decide) (by decide) h fun _ => .pure _
  | succ levels => exact leveled_yields (by decide) (by decide) h fun _ => .pure _

/-- A field is read back as an entry of a map. -/
theorem entry_yields {levels : Nat} {written : Nat × List UInt8} {field : Nat × Item}
    (h : FieldYields levels written field) :
    Yields (entry (item levels)) (Cbor.head 0 written.1 ++ written.2)
      (.unsigned field.1, field.2) := by
  obtain ⟨hname, hvalue⟩ := h
  exact (name_yields levels hname).bind (hvalue.bind_pure (f := fun v => (_, v)))

/-- **A record is read back** if its fields are. -/
theorem record_yields {levels : Nat} {written : List (Nat × List UInt8)}
    {fields : List (Nat × Item)} (hfew : written.length ≤ maxEntries)
    (h : List.Forall₂ (FieldYields levels) written fields) :
    Yields (item (levels + 1)) (record written) (.ofFields fields) := by
  have hentries : List.Forall₂ (Yields (entry (item levels)))
      (written.map fun w => Cbor.head 0 w.1 ++ w.2)
      (fields.map fun f => (Item.unsigned f.1, f.2)) := by
    rw [List.forall₂_map_left_iff, List.forall₂_map_right_iff]
    exact h.imp fun _ _ => entry_yields
  have hlength : (written.map fun w => Cbor.head 0 w.1 ++ w.2).length = written.length :=
    List.length_map _
  have hall := entries_yields (by rwa [hlength]) hentries
  rw [hlength] at hall
  unfold record
  rw [List.flatMap_def]
  exact leveled_yields (by decide) (by decide) (lt_size_of_few hfew) fun _ =>
    hall.bind_pure (f := Item.map)

end Reader

/-- Bytes of which a reader makes an item consist of that item. -/
theorem item?_of_yields {bytes : List UInt8} {i : Item}
    (h : Reader.Yields (Reader.item maxLevels) bytes i) : item? bytes = some i := by
  have hread := h []
  rw [List.append_nil] at hread
  unfold item?
  rw [hread]

/-! ### What written items mean -/

/-- The item of a number means the number. -/
@[simp] theorem Item.value?_ofInt (n : Int) : (Item.ofInt n).value? = some (.integer n) := by
  unfold Item.ofInt
  split
  · have hsign : -1 - ((-1 - n).toNat : Int) = n := by omega
    simp only [Item.value?, hsign]
  · have hsign : (n.toNat : Int) = n := by omega
    simp only [Item.value?, hsign]

/-- A text is read from its bytes. -/
theorem fromUTF8?_toList (s : String) : String.fromUTF8? ⟨s.toUTF8.toList.toArray⟩ = some s := by
  have hbytes : (⟨s.toUTF8.toList.toArray⟩ : ByteArray) = s.toByteArray := by
    rw [toList_eq]
    rfl
  rw [hbytes]
  unfold String.fromUTF8?
  rw [dif_pos s.isValidUTF8]
  rfl

/-- The item of a text means the text. -/
@[simp] theorem Item.value?_ofText (s : String) : (Item.ofText s).value? = some (.text s) := by
  have hjoin : String.join [s] = s := by simp [String.join]
  simp only [Item.ofText, Item.value?, Item.textOf?, List.mapM_cons, List.mapM_nil,
    fromUTF8?_toList]
  rw [← hjoin]
  rfl

/-- The fields of a record are those that it was made of. -/
@[simp] theorem record?_ofFields (fields : List (Nat × Item)) :
    record? (.ofFields fields) = some fields := by
  show fields? (fields.map fun f => (Item.unsigned f.1, f.2)) = some fields
  have hread : ∀ fields : List (Nat × Item),
      ((fields.map fun f => (Item.unsigned f.1, f.2)).mapM fun e =>
        (fieldName? e.1).map fun name? => name?.map fun name => (name, e.2)) =
        some (fields.map some) := by
    intro fields
    induction fields with
    | nil => rfl
    | cons f rest ih =>
      rw [List.map_cons, List.mapM_cons, ih]
      rfl
  unfold fields?
  rw [hread, Option.map_some, List.filterMap_map]
  simp

end CellMachine.Cbor
