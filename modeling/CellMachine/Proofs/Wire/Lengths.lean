import CellMachine.Emission.Buffer
import CellMachine.Wire.Image

/-!
# Lengths of lists that are read

A reader of data items gives up on lists and maps with too many entries. So the cells of an image
that is read from bytes are few, whatever the bytes are.

* `Cbor.Reader.Gives` — all that a reader gives has a property.
* `Cbor.Reader.entries_gives` — entries that are read are few, and each is what is read as one.
* `Cbor.Reader.item_gives` — **lists in an item that is read are short.**
* `Image.ofBytes_ok` — so storage has room for the cells of an image that is read.
-/

namespace CellMachine

namespace Cbor

/-- An item is short if it is no list, or one that does not have too many members. -/
def Item.Short (i : Item) : Prop :=
  ∀ items, i.value? = some (.list items) → items.length ≤ maxEntries

/-- An item is shallow if it is short and, where it is a map, the values in it are short. -/
structure Item.Shallow (i : Item) : Prop where
  short : i.Short
  members : ∀ entries, i.value? = some (.map entries) → ∀ e ∈ entries, e.2.Short

/-- What is neither a list nor a map is shallow. -/
theorem Item.Shallow.of_value? {i : Item} (hlist : ∀ items, i.value? ≠ some (.list items))
    (hmap : ∀ entries, i.value? ≠ some (.map entries)) : i.Shallow where
  short items h := absurd h (hlist items)
  members entries h := absurd h (hmap entries)

/-- A string of bytes under a tag is a number. -/
theorem Item.bigNumber?_eq (sign : Nat → Int) (i : Item) :
    i.bigNumber? sign = none ∨ ∃ n, i.bigNumber? sign = some (.integer n) := by
  cases i with
  | bytes pieces => exact .inr ⟨_, rfl⟩
  | unsigned | negative | text | list | map | tag | simple | float => exact .inl rfl

/-- A tagged item means nothing, a number, or what its content means. -/
theorem Item.value?_tag (number : Nat) (i : Item) :
    (Item.tag number i).value? = none ∨ (∃ n, (Item.tag number i).value? = some (.integer n)) ∨
      (Item.tag number i).value? = i.value? := by
  match number with
  | 0 =>
    by_cases h : i.isText
    · simp [Item.value?, h]
    · simp [Item.value?, h]
  | 1 =>
    by_cases h : i.isNumber
    · simp [Item.value?, h]
    · simp [Item.value?, h]
  | 2 =>
    rcases i.bigNumber?_eq (fun n => n) with h | ⟨n, h⟩
    · exact .inl h
    · exact .inr (.inl ⟨n, h⟩)
  | 3 =>
    rcases i.bigNumber?_eq (fun n => -1 - n) with h | ⟨n, h⟩
    · exact .inl h
    · exact .inr (.inl ⟨n, h⟩)
  | _ + 4 => exact .inr (.inr rfl)

/-- A tag adds no members. -/
theorem Item.Shallow.tag {i : Item} (h : i.Shallow) (number : Nat) :
    (Item.tag number i).Shallow := by
  rcases Item.value?_tag number i with hnone | ⟨n, hint⟩ | hsame
  · exact .of_value? (by simp [hnone]) (by simp [hnone])
  · exact .of_value? (by simp [hint]) (by simp [hint])
  · constructor
    · intro items hvalue
      exact h.short items (hsame ▸ hvalue)
    · intro entries hvalue
      exact h.members entries (hsame ▸ hvalue)

namespace Reader

variable {α β : Type}

/-- All that a reader gives has a property. -/
def Gives (x : Reader α) (P : α → Prop) : Prop := ∀ bytes a rest, x bytes = some (a, rest) → P a

namespace Gives

variable {P : α → Prop} {Q : β → Prop}

/-- A reader that reads nothing. -/
theorem pure {a : α} (h : P a) : Gives (Pure.pure a) P := by
  rintro bytes b rest hb
  cases hb
  exact h

/-- A reader that gives up. -/
theorem failure : Gives (Alternative.failure : Reader α) P := by
  intro bytes a rest h
  cases h

/-- Whatever a reader gives, it is something. -/
theorem trivial (x : Reader α) : Gives x fun _ => True := fun _ _ _ _ => True.intro

/-- A weaker property. -/
theorem imp {P' : α → Prop} {x : Reader α} (hx : Gives x P) (h : ∀ {a}, P a → P' a) :
    Gives x P' := fun bytes a rest hread => h (hx bytes a rest hread)

/-- One reader after another. -/
theorem bind {x : Reader α} {f : α → Reader β} (hx : Gives x P) (hf : ∀ a, P a → Gives (f a) Q) :
    Gives (x >>= f) Q := by
  intro bytes b rest h
  obtain ⟨⟨a, left⟩, hfirst, hsecond⟩ := Option.bind_eq_some_iff.mp h
  exact hf a (hx bytes a left hfirst) left b rest hsecond

/-- A choice between two readers. -/
theorem ite {c : Prop} [Decidable c] {x y : Reader α} (hx : Gives x P) (hy : Gives y P) :
    Gives (if c then x else y) P := by
  split
  · exact hx
  · exact hy

end Gives

section Entries

variable {P : α → Prop} {one : Reader α}

/-- A number of items is read as often as it says. -/
theorem times_gives (hone : Gives one P) {n : Nat} : ∀ {before : Array α}, (∀ a ∈ before, P a) →
    Gives (times one n before) fun items =>
      items.length ≤ before.size + n ∧ ∀ a ∈ items, P a := by
  induction n with
  | zero =>
    intro before hbefore
    exact .pure ⟨by simp, by simpa using hbefore⟩
  | succ n ih =>
    intro before hbefore
    refine .bind hone fun a ha => (ih (Array.forall_mem_push.mpr ⟨ha, hbefore⟩)).imp ?_
    rintro items ⟨hlength, hitems⟩
    rw [Array.size_push] at hlength
    exact ⟨by omega, hitems⟩

/-- Up to a break there are fewer items than there is fuel. -/
theorem untilBreak_gives (hone : Gives one P) {fuel : Nat} :
    ∀ {before : Array α}, (∀ a ∈ before, P a) →
      Gives (untilBreak one fuel before) fun items =>
        items.length < before.size + fuel ∧ ∀ a ∈ items, P a := by
  induction fuel with
  | zero =>
    intro before _
    exact .failure
  | succ fuel ih =>
    intro before hbefore
    refine .bind (.trivial peek) fun next _ => .ite ?_ ?_
    · refine .bind (.trivial byte) fun _ _ => .pure ⟨?_, by simpa using hbefore⟩
      rw [Array.length_toList]
      omega
    · refine .bind hone fun a ha => (ih (Array.forall_mem_push.mpr ⟨ha, hbefore⟩)).imp ?_
      rintro items ⟨hlength, hitems⟩
      rw [Array.size_push] at hlength
      exact ⟨by omega, hitems⟩

/-- **Entries that are read are few**, and each is what is read as one. -/
theorem entries_gives (hone : Gives one P) (argument? : Option Nat) :
    Gives (entries one argument?) fun items =>
      items.length ≤ maxEntries ∧ ∀ a ∈ items, P a := by
  have hnone : ∀ a ∈ (#[] : Array α), P a := by simp
  cases argument? with
  | some n =>
    by_cases hn : n ≤ maxEntries
    · simp only [entries, if_pos hn]
      refine (times_gives hone hnone).imp ?_
      rintro items ⟨hlength, hitems⟩
      rw [Array.size_empty] at hlength
      exact ⟨by omega, hitems⟩
    · simp only [entries, if_neg hn]
      exact .failure
  | none =>
    refine (untilBreak_gives hone hnone).imp ?_
    rintro items ⟨hlength, hitems⟩
    rw [Array.size_empty] at hlength
    exact ⟨by omega, hitems⟩

end Entries

/-- A simple value has no members. -/
theorem shallow_simple (code : Nat) : (Item.simple code).Shallow := by
  apply Item.Shallow.of_value?
  · intro items h
    unfold Item.value? at h
    split at h
    · cases h
    · split at h
      · cases h
      · cases h
  · intro entries h
    unfold Item.value? at h
    split at h
    · cases h
    · split at h
      · cases h
      · cases h

/-- Simple values and numbers with a fraction have no members. -/
theorem simple_gives (h : Head) : Gives (simple h) Item.Shallow := by
  have hfloat : Item.float.Shallow := .of_value? (by simp [Item.value?]) (by simp [Item.value?])
  unfold simple
  split
  · exact .failure
  · exact .pure (shallow_simple _)
  · exact .ite .failure (.pure (shallow_simple _))
  · exact .pure hfloat

/-- An item that is no tag is shallow if what it may have as members is short. -/
theorem plain_gives {inner? : Option (Reader Item)}
    (hinner : ∀ inner ∈ inner?, Gives inner Item.Short) (h : Head) :
    Gives (plain inner? h) Item.Shallow := by
  unfold plain
  split
  · exact .pure (.of_value? (by simp [Item.value?]) (by simp [Item.value?]))
  · exact .pure (.of_value? (by simp [Item.value?]) (by simp [Item.value?]))
  · exact .bind (.trivial _) fun _ _ =>
      .pure (.of_value? (by simp [Item.value?]) (by simp [Item.value?]))
  · exact .bind (.trivial _) fun _ _ =>
      .pure (.of_value? (by simp [Item.value?]) (by simp [Item.value?]))
  · next inner _ =>
    refine .bind (entries_gives (.trivial inner) _) fun items hitems => .pure ⟨?_, ?_⟩
    · intro items' hvalue
      cases hvalue
      exact hitems.1
    · intro entries hvalue
      cases hvalue
  · next inner _ =>
    have hentry : Gives (entry inner) fun e => e.2.Short :=
      .bind (.trivial inner) fun _ _ => .bind (hinner inner rfl) fun _ hvalue => .pure hvalue
    refine .bind (entries_gives hentry _) fun entries hentries => .pure ⟨?_, ?_⟩
    · intro items hvalue
      cases hvalue
    · intro entries' hvalue
      cases hvalue
      exact hentries.2
  · exact simple_gives h
  · exact .failure

/-- An item is shallow if what is one level further in is. -/
theorem leveled_gives {inner? : Option (Reader Item)}
    (hinner : ∀ inner ∈ inner?, Gives inner Item.Shallow) :
    Gives (leveled inner?) Item.Shallow := by
  have hplain : ∀ h, Gives (plain inner? h) Item.Shallow :=
    plain_gives fun inner hi => (hinner inner hi).imp Item.Shallow.short
  refine .bind (.trivial head) fun h _ => .ite (hplain h) ?_
  split
  · exact .failure
  · next number _ =>
    refine .bind (.trivial peek) fun next _ => .ite ?_ ?_
    · split
      · next inner =>
        exact .bind (hinner inner rfl) fun i hi => .pure (hi.tag number)
      · exact .failure
    · exact .bind (.trivial head) fun h' _ => .bind (hplain h') fun i hi => .pure (hi.tag number)

/-- **Lists in an item that is read are short.** -/
theorem item_gives (levels : Nat) : Gives (item levels) Item.Shallow := by
  induction levels with
  | zero => exact leveled_gives (by simp)
  | succ levels ih =>
    apply leveled_gives
    rintro inner hi
    cases hi
    exact ih

end Reader

/-- An item that bytes consist of is shallow. -/
theorem shallow_of_item? {bytes : List UInt8} {i : Item} (h : item? bytes = some i) :
    i.Shallow := by
  unfold item? at h
  split at h
  · next hread =>
    cases h
    exact Reader.item_gives maxLevels _ _ _ hread
  · cases h

/-- What is read of each member of a list, if something is read of all of them. -/
theorem map_of_mapM {α β : Type} {f : α → Option β} {as : List α} :
    ∀ {bs : List β}, as.mapM f = some bs → as.map f = bs.map some := by
  induction as with
  | nil =>
    intro bs h
    cases h
    rfl
  | cons a as ih =>
    intro bs h
    rw [List.mapM_cons] at h
    obtain ⟨b, hfirst, h⟩ := Option.bind_eq_some_iff.mp h
    obtain ⟨rest, hrest, h⟩ := Option.bind_eq_some_iff.mp h
    cases h
    rw [List.map_cons, List.map_cons, hfirst, ih hrest]

/-- Each result of reading a list is read from a member of it. -/
theorem exists_of_mem_mapM {α β : Type} {f : α → Option β} {as : List α} {bs : List β}
    (h : as.mapM f = some bs) {b : β} (hb : b ∈ bs) : ∃ a ∈ as, f a = some b := by
  have hsome : some b ∈ as.map f := by
    rw [map_of_mapM h]
    exact List.mem_map_of_mem hb
  exact List.mem_map.mp hsome

/-- The fields of a map are among its values. -/
theorem mem_of_fields? {entries : List (Item × Item)} {fields : List (Nat × Item)}
    (h : fields? entries = some fields) {name : Nat} {field : Item}
    (hmem : (name, field) ∈ fields) : ∃ e ∈ entries, e.2 = field := by
  obtain ⟨found, hfound, rfl⟩ := Option.map_eq_some_iff.mp h
  obtain ⟨x, hx, rfl⟩ := List.mem_filterMap.mp hmem
  obtain ⟨e, he, hread⟩ := exists_of_mem_mapM hfound hx
  obtain ⟨name?, -, hentry⟩ := Option.map_eq_some_iff.mp hread
  obtain ⟨_, -, hpair⟩ := Option.map_eq_some_iff.mp hentry
  exact ⟨e, he, congrArg Prod.snd hpair⟩

/-- The fields of a record are among the values of its map. -/
theorem mem_of_record? {i : Item} {fields : List (Nat × Item)} (h : record? i = some fields)
    {name : Nat} {field : Item} (hmem : (name, field) ∈ fields) :
    ∃ entries, i.value? = some (.map entries) ∧ ∃ e ∈ entries, e.2 = field := by
  unfold record? at h
  split at h
  · next entries hvalue =>
    exact ⟨entries, hvalue, mem_of_fields? h hmem⟩
  · cases h
    cases hmem
  · cases h

/-- The fields of a shallow record are short. -/
theorem short_of_record? {i : Item} (h : i.Shallow) {fields : List (Nat × Item)}
    (hfields : record? i = some fields) {name : Nat} {field : Item}
    (hmem : (name, field) ∈ fields) : field.Short := by
  obtain ⟨entries, hvalue, e, he, rfl⟩ := mem_of_record? hfields hmem
  exact h.members entries hvalue e he

/-- A field of a record is its default or is read from one of the fields. -/
theorem field?_cases {α : Type} {fields : List (Nat × Item)} {name : Nat} {default a : α}
    {read? : Value → Option α} (h : field? fields name default read? = some a) :
    a = default ∨ ∃ field v, (name, field) ∈ fields ∧ field.value? = some v ∧
      read? v = some a := by
  unfold field? at h
  split at h
  · cases h
    exact .inl rfl
  · next field hlookup =>
    have hmem : (name, field) ∈ fields := by
      obtain ⟨before, after, hsplit, -⟩ := List.lookup_eq_some_iff.mp hlookup
      simp [hsplit]
    split at h
    · cases h
    · cases h
      exact .inl rfl
    · next v _ hvalue =>
      exact .inr ⟨field, v, hmem, hvalue, h⟩

/-- A list that a short item means has few members. -/
theorem Item.Short.length_list? {α : Type} {i : Item} (h : i.Short) {v : Value}
    (hvalue : i.value? = some v) {read? : Item → Option α} {members : List α}
    (hlist : list? read? v = some members) : members.length ≤ maxEntries := by
  unfold list? at hlist
  split at hlist
  · next items =>
    have hlength := congrArg List.length (map_of_mapM hlist)
    rw [List.length_map, List.length_map] at hlength
    exact hlength ▸ h items hvalue
  · cases hlist

/-- A list that is a field of a shallow record has few members. -/
theorem length_of_field? {α : Type} {i : Item} (h : i.Shallow) {fields : List (Nat × Item)}
    (hfields : record? i = some fields) {name : Nat} {read? : Item → Option α} {members : List α}
    (hfield : field? fields name [] (list? read?) = some members) :
    members.length ≤ maxEntries := by
  rcases field?_cases hfield with rfl | ⟨field, v, hmem, hvalue, hlist⟩
  · exact Nat.zero_le _
  · exact (short_of_record? h hfields hmem).length_list? hvalue hlist

end Cbor

namespace Image

/-- The item of an image is a record, and the lists of the image are read from its fields. -/
theorem fields_of_ofItem? {i : Cbor.Item} {img : Image} (h : ofItem? i = some img) :
    ∃ fields, Cbor.record? i = some fields ∧
      Cbor.field? fields 3 none (fun v =>
        (Cbor.list? cell? v).map fun cells => some cells.toArray) = some img.cells? ∧
      Cbor.field? fields 4 [] (Cbor.list? globalOf?) = some img.globals ∧
      Cbor.field? fields 5 [] (Cbor.list? routineOf?) = some img.routines := by
  unfold ofItem? at h
  obtain ⟨fields, hfields, h⟩ := Option.bind_eq_some_iff.mp h
  obtain ⟨version, -, h⟩ := Option.bind_eq_some_iff.mp h
  obtain ⟨base, -, h⟩ := Option.bind_eq_some_iff.mp h
  obtain ⟨cells?, hcells, h⟩ := Option.bind_eq_some_iff.mp h
  obtain ⟨globals, hglobals, h⟩ := Option.bind_eq_some_iff.mp h
  obtain ⟨routines, hroutines, h⟩ := Option.bind_eq_some_iff.mp h
  cases h
  exact ⟨fields, hfields, hcells, hglobals, hroutines⟩

/-- The lists of the image that a shallow item describes are short. -/
theorem lengths_of_ofItem? {i : Cbor.Item} (hi : i.Shallow) {img : Image}
    (h : ofItem? i = some img) :
    img.cells.size ≤ Cbor.maxEntries ∧ img.globals.length ≤ Cbor.maxEntries ∧
      img.routines.length ≤ Cbor.maxEntries := by
  obtain ⟨fields, hfields, hcells, hglobals, hroutines⟩ := fields_of_ofItem? h
  refine ⟨?_, Cbor.length_of_field? hi hfields hglobals, Cbor.length_of_field? hi hfields hroutines⟩
  rcases Cbor.field?_cases hcells with hnone | ⟨field, v, hmem, hvalue, hread⟩
  · simp [cells, hnone]
  · obtain ⟨members, hlist, hsome⟩ := Option.map_eq_some_iff.mp hread
    have hlength := (Cbor.short_of_record? hi hfields hmem).length_list? hvalue hlist
    simpa [cells, ← hsome] using hlength

/-- An image that is read is what an item describes, with the version of this library and a sound
layout. -/
theorem item_of_ofBytes [BaseOrder] {bytes : List UInt8} {img : Image}
    (h : ofBytes bytes = .ok img) :
    (∃ i, Cbor.item? bytes = some i ∧ ofItem? i = some img) ∧ img.version = imageVersion ∧
      img.checkLayout = .ok () := by
  unfold ofBytes at h
  split at h
  · cases h
  · next found hfound =>
    obtain ⟨i, hitem, himg⟩ := Option.bind_eq_some_iff.mp hfound
    split at h
    · cases h
    · next hversion =>
      split at h
      · cases h
      · next hlayout =>
        cases h
        exact ⟨⟨i, hitem, himg⟩, Decidable.not_not.mp hversion, hlayout⟩

/-- An image that is read has the version of this library, a sound layout, and cells that storage
has room for. -/
theorem ofBytes_ok [BaseOrder] {bytes : List UInt8} {img : Image} (h : ofBytes bytes = .ok img) :
    img.version = imageVersion ∧ img.checkLayout = .ok () ∧ img.cells.size ≤ maxCells := by
  have hmax : Cbor.maxEntries ≤ maxCells := by decide
  obtain ⟨⟨i, hitem, himg⟩, hversion, hlayout⟩ := item_of_ofBytes h
  obtain ⟨hsize, -, -⟩ := lengths_of_ofItem? (Cbor.shallow_of_item? hitem) himg
  exact ⟨hversion, hlayout, Nat.le_trans hsize hmax⟩

end Image

end CellMachine
