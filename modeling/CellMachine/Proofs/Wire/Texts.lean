import CellMachine.Proofs.Wire.Lengths
import Mathlib.Algebra.GroupWithZero.Nat
import Mathlib.Algebra.Order.BigOperators.Group.List
import Mathlib.Algebra.Order.Group.Nat

/-!
# Texts that are read

A text that is read is no longer than the bytes that it is read from, in however many pieces and
under however many tags it comes. So the length of every name in an image that is read can be
written again.

* `Cbor.Item.textSize` — the number of bytes in the texts of an item.
* `Cbor.Reader.Spends` — a reader takes at least as many bytes as there are in what it gives.
* `Cbor.Reader.item_spends` — **the texts of an item take no more bytes than there were.**
* `Image.names_of_ofBytes` — so the names in an image that is read are no longer than its bytes.
-/

namespace CellMachine

namespace Cbor

/-- The number of bytes in the texts of an item; the keys of maps do not count. -/
def Item.textSize : Item → Nat
  | .text pieces => pieces.flatten.length
  | .list items => (items.map fun i => i.textSize).sum
  | .map entries => (entries.map fun e => e.2.textSize).sum
  | .tag _ content => content.textSize
  | _ => 0
decreasing_by
  · next hmem =>
    have hless := List.sizeOf_lt_of_mem hmem
    simp only [Item.list.sizeOf_spec]
    omega
  · next hmem =>
    have hless := List.sizeOf_lt_of_mem hmem
    obtain ⟨key, value⟩ := e
    simp only [Item.map.sizeOf_spec, Prod.mk.sizeOf_spec] at hless ⊢
    omega
  · simp only [Item.tag.sizeOf_spec]
    omega

/-! ### What readers take -/

namespace Reader

variable {α β : Type}

/-- A reader takes at least as many bytes as its result weighs, of which `paid` were taken
before. -/
def Spends (paid : Nat) (x : Reader α) (weight : α → Nat) : Prop :=
  ∀ bytes a rest, x bytes = some (a, rest) → weight a + rest.length ≤ paid + bytes.length

namespace Spends

variable {paid : Nat} {weight : α → Nat} {total : β → Nat}

/-- A reader that reads nothing gives only what is paid for. -/
theorem pure {a : α} (h : weight a ≤ paid) : Spends paid (Pure.pure a) weight := by
  rintro bytes b rest hb
  cases hb
  omega

/-- A reader that gives up. -/
theorem failure : Spends paid (Alternative.failure : Reader α) weight := by
  intro bytes a rest h
  cases h

/-- What the first reader took is paid for when the second one begins. -/
theorem bind {x : Reader α} {f : α → Reader β} (hx : Spends paid x weight)
    (hf : ∀ a, Spends (weight a) (f a) total) : Spends paid (x >>= f) total := by
  intro bytes b rest h
  obtain ⟨⟨a, left⟩, hfirst, hsecond⟩ := Option.bind_eq_some_iff.mp h
  have htaken := hx bytes a left hfirst
  have hrest := hf a left b rest hsecond
  omega

/-- A choice between two readers. -/
theorem ite {c : Prop} [Decidable c] {x y : Reader α} (hx : Spends paid x weight)
    (hy : Spends paid y weight) : Spends paid (if c then x else y) weight := by
  split
  · exact hx
  · exact hy

/-- What was paid before is left over. -/
theorem more {x : Reader α} (hx : Spends 0 x weight) (paid : Nat) :
    Spends paid x fun a => paid + weight a := by
  intro bytes a rest h
  have htaken := hx bytes a rest h
  show paid + weight a + rest.length ≤ paid + bytes.length
  omega

end Spends

/-- One byte weighs nothing. -/
theorem byte_spends (paid : Nat) : Spends paid byte fun _ => paid := by
  intro bytes b rest h
  cases bytes with
  | nil => cases h
  | cons first bytes =>
    cases h
    exact Nat.add_le_add_left (Nat.le_succ _) paid

/-- Looking ahead takes nothing. -/
theorem peek_spends (paid : Nat) : Spends paid peek fun _ => paid := by
  intro bytes b rest h
  cases bytes with
  | nil => cases h
  | cons first bytes =>
    cases h
    exact Nat.le_refl _

/-- Bytes that are taken are gone. -/
theorem take_spends (n : Nat) : Spends 0 (take n) List.length := by
  intro bytes taken rest h
  unfold take at h
  dsimp only at h
  split at h
  · cases h
    rw [List.length_take, List.length_drop]
    omega
  · cases h

/-- An argument weighs nothing. -/
theorem argument_spends (paid low : Nat) : Spends paid (argument low) fun _ => paid := by
  unfold argument
  refine .ite (.pure (Nat.le_refl _)) (.ite ?_ (.ite (.pure (Nat.le_refl _)) .failure))
  exact ((take_spends _).more paid).bind fun _ => .pure (Nat.le_add_right _ _)

/-- A head weighs nothing. -/
theorem head_spends (paid : Nat) : Spends paid head fun _ => paid :=
  (byte_spends paid).bind fun _ => (argument_spends paid _).bind fun _ => .pure (Nat.le_refl _)

section Entries

variable {weight : α → Nat} {one : Reader α}

/-- What is read a number of times weighs as much as its members together. -/
theorem times_spends (hone : Spends 0 one weight) {n : Nat} : ∀ before : Array α,
    Spends (before.toList.map weight).sum (times one n before) fun as => (as.map weight).sum := by
  induction n with
  | zero =>
    intro before
    exact .pure (Nat.le_refl _)
  | succ n ih =>
    intro before
    refine (hone.more _).bind fun a => ?_
    have hrest := ih (before.push a)
    rw [Array.toList_push, List.map_append, List.sum_append, List.map_singleton,
      List.sum_singleton] at hrest
    exact hrest

/-- What is read up to a break weighs as much as its members together. -/
theorem untilBreak_spends (hone : Spends 0 one weight) {fuel : Nat} : ∀ before : Array α,
    Spends (before.toList.map weight).sum (untilBreak one fuel before)
      fun as => (as.map weight).sum := by
  induction fuel with
  | zero =>
    intro before
    exact .failure
  | succ fuel ih =>
    intro before
    refine (peek_spends _).bind fun next => .ite ?_ ?_
    · exact (byte_spends _).bind fun _ => .pure (Nat.le_refl _)
    · refine (hone.more _).bind fun a => ?_
      have hrest := ih (before.push a)
      rw [Array.toList_push, List.map_append, List.sum_append, List.map_singleton,
        List.sum_singleton] at hrest
      exact hrest

/-- Entries weigh as much as their members together. -/
theorem entries_spends (hone : Spends 0 one weight) (argument? : Option Nat) :
    Spends 0 (entries one argument?) fun as => (as.map weight).sum := by
  cases argument? with
  | some n => exact .ite (times_spends hone #[]) .failure
  | none => exact untilBreak_spends hone #[]

end Entries

/-- A piece of a string weighs its length. -/
theorem piece_spends (major : Nat) : Spends 0 (piece major) List.length := by
  refine (head_spends 0).bind fun h => .ite .failure ?_
  split
  · exact take_spends _
  · exact .failure

/-- The pieces of a string weigh the length of the whole. -/
theorem pieces_spends (major : Nat) (argument? : Option Nat) :
    Spends 0 (pieces major argument?) fun pieces => pieces.flatten.length := by
  cases argument? with
  | some n =>
    refine (take_spends n).bind fun taken => .pure ?_
    exact Nat.le_of_eq (by rw [List.flatten_singleton])
  | none =>
    intro bytes pieces rest h
    show pieces.flatten.length + rest.length ≤ 0 + bytes.length
    rw [List.length_flatten]
    exact untilBreak_spends (piece_spends major) #[] bytes pieces rest h

/-- A simple value holds no text. -/
theorem simple_spends (h : Head) : Spends 0 (simple h) Item.textSize := by
  unfold simple
  split
  · exact .failure
  · exact .pure (by simp [Item.textSize])
  · exact .ite .failure (.pure (by simp [Item.textSize]))
  · exact .pure (by simp [Item.textSize])

/-- The texts of an item that is no tag are those of its members. -/
theorem plain_spends {inner? : Option (Reader Item)}
    (hinner : ∀ inner ∈ inner?, Spends 0 inner Item.textSize) (h : Head) :
    Spends 0 (plain inner? h) Item.textSize := by
  unfold plain
  split
  · exact .pure (by simp [Item.textSize])
  · exact .pure (by simp [Item.textSize])
  · exact (pieces_spends 2 _).bind fun _ => .pure (by simp [Item.textSize])
  · exact (pieces_spends 3 _).bind fun _ => .pure (by simp [Item.textSize])
  · next inner _ =>
    exact (entries_spends (hinner inner rfl) _).bind fun _ => .pure (by simp [Item.textSize])
  · next inner _ =>
    have hentry : Spends 0 (entry inner) fun e => e.2.textSize := by
      refine (hinner inner rfl).bind fun key => ((hinner inner rfl).more _).bind fun value => ?_
      exact .pure (Nat.le_add_left _ _)
    exact (entries_spends hentry _).bind fun _ => .pure (by simp [Item.textSize])
  · exact simple_spends h
  · exact .failure

/-- The texts of an item are its own or those one level further in. -/
theorem leveled_spends {inner? : Option (Reader Item)}
    (hinner : ∀ inner ∈ inner?, Spends 0 inner Item.textSize) :
    Spends 0 (leveled inner?) Item.textSize := by
  have hplain : ∀ h, Spends 0 (plain inner? h) Item.textSize := plain_spends hinner
  refine (head_spends 0).bind fun h => .ite (hplain h) ?_
  split
  · exact .failure
  · next number _ =>
    refine (peek_spends 0).bind fun next => .ite ?_ ?_
    · split
      · next inner =>
        exact (hinner inner rfl).bind fun i => .pure (by simp [Item.textSize])
      · exact .failure
    · exact (head_spends 0).bind fun h' => (hplain h').bind fun i =>
        .pure (by simp [Item.textSize])

/-- **The texts of an item take no more bytes than there were.** -/
theorem item_spends (levels : Nat) : Spends 0 (item levels) Item.textSize := by
  induction levels with
  | zero => exact leveled_spends (by simp)
  | succ levels ih =>
    apply leveled_spends
    rintro inner hi
    cases hi
    exact ih

end Reader

/-- The texts of the item that bytes consist of. -/
theorem textSize_of_item? {bytes : List UInt8} {i : Item} (h : item? bytes = some i) :
    i.textSize ≤ bytes.length := by
  unfold item? at h
  split at h
  · next hread =>
    cases h
    have hspent := Reader.item_spends maxLevels _ _ _ hread
    simpa using hspent
  · cases h

/-! ### Texts in what an item means -/

/-- Texts that are joined are as long as they are together. -/
theorem size_join (texts : List String) :
    (String.join texts).utf8ByteSize = (texts.map String.utf8ByteSize).sum := by
  have hfold : ∀ (texts : List String) (before : String),
      (texts.foldl (fun r s => r ++ s) before).utf8ByteSize =
        before.utf8ByteSize + (texts.map String.utf8ByteSize).sum := by
    intro texts
    induction texts with
    | nil => simp
    | cons s rest ih =>
      intro before
      rw [List.foldl_cons, ih, String.utf8ByteSize_append, List.map_cons, List.sum_cons]
      omega
  have h := hfold texts ""
  simpa [String.join] using h

/-- The text that bytes are is as long as they are. -/
theorem size_of_fromUTF8? {bytes : ByteArray} {s : String}
    (h : String.fromUTF8? bytes = some s) : s.utf8ByteSize = bytes.size := by
  unfold String.fromUTF8? at h
  split at h
  · cases h
    rfl
  · cases h

/-- The text that pieces make is as long as they are together. -/
theorem Item.size_of_textOf? {pieces : List (List UInt8)} {s : String}
    (h : Item.textOf? pieces = some s) : s.utf8ByteSize = pieces.flatten.length := by
  obtain ⟨texts, htexts, rfl⟩ := Option.map_eq_some_iff.mp h
  have hsizes : ∀ {pieces : List (List UInt8)} {texts : List String},
      pieces.map (fun piece => String.fromUTF8? ⟨piece.toArray⟩) = texts.map some →
        texts.map String.utf8ByteSize = pieces.map List.length := by
    intro pieces
    induction pieces with
    | nil =>
      intro texts h
      cases texts with
      | nil => rfl
      | cons s texts => cases h
    | cons piece pieces ih =>
      intro texts h
      cases texts with
      | nil => cases h
      | cons s texts =>
        obtain ⟨hfirst, hrest⟩ := List.cons.inj h
        rw [List.map_cons, List.map_cons, ih hrest, size_of_fromUTF8? hfirst]
        rfl
  rw [size_join, hsizes (map_of_mapM htexts), List.length_flatten]

/-- The members of what an item means, and the text that it means, have no texts but those of the
item. -/
structure Item.Carries (i : Item) (most : Nat) : Prop where
  text : ∀ s, i.value? = some (.text s) → s.utf8ByteSize ≤ most
  list : ∀ items, i.value? = some (.list items) → ∀ j ∈ items, j.textSize ≤ most
  map : ∀ entries, i.value? = some (.map entries) → ∀ e ∈ entries, e.2.textSize ≤ most

/-- **What an item means has no texts but those of the item**, whatever tags it has. -/
theorem Item.carries : (i : Item) → i.Carries i.textSize
  | .unsigned _ | .negative _ | .bytes _ | .float =>
    ⟨by simp [Item.value?], by simp [Item.value?], by simp [Item.value?]⟩
  | .text pieces => by
    refine ⟨?_, by simp [Item.value?], by simp [Item.value?]⟩
    intro s h
    obtain ⟨text, htext, hs⟩ := Option.map_eq_some_iff.mp h
    cases hs
    rw [Item.textSize]
    exact Nat.le_of_eq (Item.size_of_textOf? htext)
  | .list items => by
    refine ⟨by simp [Item.value?], ?_, by simp [Item.value?]⟩
    intro items' h j hj
    cases h
    rw [Item.textSize]
    exact List.le_sum_of_mem (List.mem_map_of_mem hj)
  | .map entries => by
    refine ⟨by simp [Item.value?], by simp [Item.value?], ?_⟩
    intro entries' h e he
    cases h
    rw [Item.textSize]
    exact List.le_sum_of_mem (List.mem_map_of_mem he)
  | .simple code => by
    have hvalue : (Item.simple code).value? = none ∨ (Item.simple code).value? = some .null ∨
        (Item.simple code).value? = some (.integer code) := by
      unfold Item.value?
      split
      · exact .inl rfl
      · split
        · exact .inr (.inl rfl)
        · exact .inr (.inr rfl)
    rcases hvalue with h | h | h <;> exact ⟨by simp [h], by simp [h], by simp [h]⟩
  | .tag number content => by
    have hcontent := Item.carries content
    rw [Item.textSize]
    rcases Item.value?_tag number content with hnone | ⟨n, hint⟩ | hsame
    · exact ⟨by simp [hnone], by simp [hnone], by simp [hnone]⟩
    · exact ⟨by simp [hint], by simp [hint], by simp [hint]⟩
    · exact ⟨hsame ▸ hcontent.text, hsame ▸ hcontent.list, hsame ▸ hcontent.map⟩

/-- The fields of a record have no texts but those of the record. -/
theorem textSize_of_record? {i : Item} {fields : List (Nat × Item)}
    (hfields : record? i = some fields) {name : Nat} {field : Item}
    (hmem : (name, field) ∈ fields) : field.textSize ≤ i.textSize := by
  obtain ⟨entries, hvalue, e, he, rfl⟩ := mem_of_record? hfields hmem
  exact i.carries.map entries hvalue e he

/-- A text in a record is no longer than the texts of the record. -/
theorem size_of_field? {i : Item} {fields : List (Nat × Item)} (hfields : record? i = some fields)
    {name : Nat} {s : String} (h : field? fields name "" text? = some s) :
    s.utf8ByteSize ≤ i.textSize := by
  rcases field?_cases h with rfl | ⟨field, v, hmem, hvalue, hread⟩
  · exact Nat.zero_le _
  · cases v with
    | text found =>
      cases hread
      exact Nat.le_trans (field.carries.text s hvalue) (textSize_of_record? hfields hmem)
    | null | integer | list | map => cases hread

/-- The members of a list in a record are read from items whose texts are among those of the
record. -/
theorem mem_of_field? {α : Type} {i : Item} {fields : List (Nat × Item)}
    (hfields : record? i = some fields) {name : Nat} {read? : Item → Option α} {members : List α}
    (h : field? fields name [] (list? read?) = some members) {a : α} (ha : a ∈ members) :
    ∃ j, read? j = some a ∧ j.textSize ≤ i.textSize := by
  rcases field?_cases h with rfl | ⟨field, v, hmem, hvalue, hread⟩
  · cases ha
  · cases v with
    | list items =>
      obtain ⟨j, hj, hja⟩ := exists_of_mem_mapM hread ha
      exact ⟨j, hja, Nat.le_trans (field.carries.list items hvalue j hj)
        (textSize_of_record? hfields hmem)⟩
    | null | integer | text | map => cases hread

end Cbor

namespace Image

/-- The names in an image have at most so many bytes. -/
structure NamesWithin (img : Image) (most : Nat) : Prop where
  globals : ∀ g ∈ img.globals, g.name.utf8ByteSize ≤ most
  routines : ∀ r ∈ img.routines, r.name.utf8ByteSize ≤ most

/-- The name of a global is one of the texts of its item. -/
theorem size_of_globalOf? {i : Cbor.Item} {g : GlobalEntry} (h : globalOf? i = some g) :
    g.name.utf8ByteSize ≤ i.textSize := by
  obtain ⟨fields, hfields, h⟩ := Option.bind_eq_some_iff.mp h
  obtain ⟨name, hname, h⟩ := Option.bind_eq_some_iff.mp h
  obtain ⟨addr, -, h⟩ := Option.bind_eq_some_iff.mp h
  cases h
  exact Cbor.size_of_field? hfields hname

/-- The name of a routine is one of the texts of its item. -/
theorem size_of_routineOf? {i : Cbor.Item} {r : RoutineEntry} (h : routineOf? i = some r) :
    r.name.utf8ByteSize ≤ i.textSize := by
  obtain ⟨fields, hfields, h⟩ := Option.bind_eq_some_iff.mp h
  obtain ⟨name, hname, h⟩ := Option.bind_eq_some_iff.mp h
  obtain ⟨base, -, h⟩ := Option.bind_eq_some_iff.mp h
  obtain ⟨capacity, -, h⟩ := Option.bind_eq_some_iff.mp h
  cases h
  exact Cbor.size_of_field? hfields hname

/-- The names in an image are texts of its item. -/
theorem names_of_ofItem? {i : Cbor.Item} {img : Image} (h : ofItem? i = some img) :
    img.NamesWithin i.textSize := by
  obtain ⟨fields, hfields, -, hglobals, hroutines⟩ := fields_of_ofItem? h
  constructor
  · intro g hg
    obtain ⟨j, hj, hsize⟩ := Cbor.mem_of_field? hfields hglobals hg
    exact Nat.le_trans (size_of_globalOf? hj) hsize
  · intro r hr
    obtain ⟨j, hj, hsize⟩ := Cbor.mem_of_field? hfields hroutines hr
    exact Nat.le_trans (size_of_routineOf? hj) hsize

/-- **The names in an image that is read are no longer than the bytes that it is read from.** -/
theorem names_of_ofBytes [BaseOrder] {bytes : List UInt8} {img : Image}
    (h : ofBytes bytes = .ok img) : img.NamesWithin bytes.length := by
  obtain ⟨⟨i, hitem, himg⟩, -⟩ := item_of_ofBytes h
  have hnames := names_of_ofItem? himg
  have hsize := Cbor.textSize_of_item? hitem
  exact ⟨fun g hg => Nat.le_trans (hnames.globals g hg) hsize,
    fun r hr => Nat.le_trans (hnames.routines r hr) hsize⟩

end Image

end CellMachine
