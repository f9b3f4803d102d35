import CellMachine.Proofs.Cbor.Written
import Mathlib.Data.String.Basic

/-!
# The order of names is the order of their bytes

The rows of a catalog are listed in the order of their names as texts, character by character. A
list of texts is kept in the order of bytes. The two are one order: the bytes of a character begin
with its length, and those of a greater character are greater at the first place where they differ.

* `Text.utf8EncodeChar_append_lt` — the bytes of a lesser character are less, whatever follows.
* `Text.bytes_lt_of_lt` — **a lesser text has lesser bytes.**
-/

namespace CellMachine

namespace Text

/-- The bytes of a text are those of its characters. -/
theorem bytes_eq_flatMap (s : String) :
    s.toUTF8.toList = s.toList.flatMap String.utf8EncodeChar := by
  have hbytes : s.toUTF8 = s.toList.utf8Encode := by
    rw [← String.toByteArray_ofList, String.ofList_toList]
    rfl
  rw [hbytes, Cbor.toList_eq, List.utf8Encode, List.data_toByteArray]

/-- Bytes are in order if the first ones are, and the rest is where the first ones are the same. -/
theorem cons_lt_cons_of_le {m n : Nat} (hle : m ≤ n) (hn : n < 256) {as bs : List UInt8}
    (h : m = n → as < bs) : UInt8.ofNat m :: as < UInt8.ofNat n :: bs := by
  rw [List.cons_lt_cons_iff]
  rcases Nat.lt_or_eq_of_le hle with hlt | heq
  · left
    rw [UInt8.lt_iff_toNat_lt, UInt8.toNat_ofNat', UInt8.toNat_ofNat']
    omega
  · exact .inr ⟨congrArg UInt8.ofNat heq, h heq⟩

/-- Bytes are in order if the first ones are. -/
theorem cons_lt_cons_of_lt {m n : Nat} (hlt : m < n) (hn : n < 256) (as bs : List UInt8) :
    UInt8.ofNat m :: as < UInt8.ofNat n :: bs :=
  cons_lt_cons_of_le hlt.le hn fun h => absurd h hlt.ne

/-- **The bytes of a lesser character are less**, whatever follows. -/
theorem utf8EncodeChar_append_lt {a b : Char} (h : a < b) (as bs : List UInt8) :
    String.utf8EncodeChar a ++ as < String.utf8EncodeChar b ++ bs := by
  have hval : a.val.toNat < b.val.toNat := UInt32.lt_iff_toNat_lt.mp (Char.lt_def.mp h)
  have hmost : b.val.toNat < 1114112 := by
    rcases b.valid with hlow | ⟨-, hhigh⟩
    · exact Nat.lt_trans hlow (by decide)
    · exact hhigh
  unfold String.utf8EncodeChar
  generalize a.val.toNat = v at hval
  generalize b.val.toNat = w at hval hmost
  -- Characters of one to four bytes on either side. Where the second one has more bytes, its first
  -- byte is greater; where both have as many, they differ somewhere, at the latest in the last
  -- byte.
  simp only []
  split_ifs
  · exact cons_lt_cons_of_lt hval (by omega) _ _
  · exact cons_lt_cons_of_lt (by omega) (by omega) _ _
  · exact cons_lt_cons_of_lt (by omega) (by omega) _ _
  · exact cons_lt_cons_of_lt (by omega) (by omega) _ _
  · omega
  · refine cons_lt_cons_of_le (by omega) (by omega) fun _ => ?_
    exact cons_lt_cons_of_lt (by omega) (by omega) _ _
  · exact cons_lt_cons_of_lt (by omega) (by omega) _ _
  · exact cons_lt_cons_of_lt (by omega) (by omega) _ _
  · omega
  · omega
  · refine cons_lt_cons_of_le (by omega) (by omega) fun _ => ?_
    refine cons_lt_cons_of_le (by omega) (by omega) fun _ => ?_
    exact cons_lt_cons_of_lt (by omega) (by omega) _ _
  · exact cons_lt_cons_of_lt (by omega) (by omega) _ _
  · omega
  · omega
  · omega
  · refine cons_lt_cons_of_le (by omega) (by omega) fun _ => ?_
    refine cons_lt_cons_of_le (by omega) (by omega) fun _ => ?_
    refine cons_lt_cons_of_le (by omega) (by omega) fun _ => ?_
    exact cons_lt_cons_of_lt (by omega) (by omega) _ _

/-- The bytes of a lesser list of characters are less. -/
theorem flatMap_utf8EncodeChar_lt {as bs : List Char} (h : as < bs) :
    as.flatMap String.utf8EncodeChar < bs.flatMap String.utf8EncodeChar := by
  induction as generalizing bs with
  | nil =>
    cases bs with
    | nil => exact absurd h (List.lt_irrefl _)
    | cons b bs =>
      obtain ⟨first, more, hbytes⟩ :=
        List.exists_cons_of_ne_nil (String.utf8EncodeChar_ne_nil (c := b))
      rw [List.flatMap_cons, hbytes]
      exact List.nil_lt_cons _ _
  | cons a as ih =>
    cases bs with
    | nil => exact absurd h (List.not_lt_nil _)
    | cons b bs =>
      rw [List.flatMap_cons, List.flatMap_cons]
      rcases List.cons_lt_cons_iff.mp h with hfirst | ⟨rfl, hrest⟩
      · exact utf8EncodeChar_append_lt hfirst _ _
      · exact List.append_left_lt (ih hrest)

/-- **A lesser text has lesser bytes.** -/
theorem bytes_lt_of_lt {s t : String} (h : s < t) : s.toUTF8.toList < t.toUTF8.toList := by
  rw [bytes_eq_flatMap, bytes_eq_flatMap]
  exact flatMap_utf8EncodeChar_lt (String.lt_iff_toList_lt.mp h)

end Text

end CellMachine
