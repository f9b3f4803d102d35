import CellMachine.Text.Digits

/-!
# Hexadecimal numbers in columns

A listing shows addresses and opcodes by their hexadecimal digits, filled up with zeros. Such a
text can be read back, so numbers that differ have texts that differ, however wide the column is.

* `hexNumber?_hexUpper` — **the digits of a number are read as the number**.
* `hexNumber?_column` — so they are behind the zeros of a column; `column_inj` — what follows for
  two of them.
* `isSome_hexValue?_of_mem_column` — a column of digits has no other character in it.
-/

namespace CellMachine.Text

/-! ### Digits -/

/-- A digit as it is written. -/
theorem hexValue?_digitChar {d : Nat} (h : d < 16) :
    hexValue? (Nat.digitChar d).toUpper = some d := by
  have hall : ∀ d : Fin 16, hexValue? (Nat.digitChar d).toUpper = some d.val := by decide
  exact hall ⟨d, h⟩

/-- One more digit at the end. -/
theorem hexNumber?_concat {cs : List Char} {c : Char} {n d : Nat} (hcs : hexNumber? cs = some n)
    (hc : hexValue? c = some d) : hexNumber? (cs ++ [c]) = some (16 * n + d) := by
  unfold hexNumber? at hcs ⊢
  rw [List.foldlM_append, hcs]
  simp [hc]

/-- **The digits of a number are read as the number.** -/
theorem hexNumber?_hexUpper (n : Nat) : hexNumber? (hexUpper n).toList = some n := by
  unfold hexUpper
  rw [String.toList_ofList]
  induction n using Nat.strongRecOn with
  | ind n ih =>
    by_cases hn : n < 16
    · have hnone : hexNumber? [] = some 0 := rfl
      have hdigit := hexNumber?_concat hnone (hexValue?_digitChar hn)
      rw [Nat.mul_zero, Nat.zero_add] at hdigit
      rw [Nat.toDigits_of_lt_base hn, List.map_singleton]
      exact hdigit
    · have hdigit := hexNumber?_concat (ih (n / 16) (by omega))
        (hexValue?_digitChar (Nat.mod_lt n (by decide)))
      rw [Nat.toDigits_of_base_le (by decide) (by omega), List.map_append, List.map_singleton,
        hdigit, Nat.div_add_mod]

/-- Numbers that differ have digits that differ. -/
theorem hexUpper_inj {m n : Nat} (h : hexUpper m = hexUpper n) : m = n := by
  have hm := hexNumber?_hexUpper m
  rw [h, hexNumber?_hexUpper] at hm
  exact (Option.some.inj hm).symm

/-- A text is read as a number only if each of its characters is a digit. -/
theorem isSome_hexValue?_of_hexNumber? {cs : List Char} {n : Nat} (h : hexNumber? cs = some n) :
    ∀ c ∈ cs, (hexValue? c).isSome := by
  unfold hexNumber? at h
  generalize 0 = acc at h
  induction cs generalizing acc with
  | nil => exact fun c hc => nomatch hc
  | cons c cs ih =>
    rw [List.foldlM_cons] at h
    cases hc : hexValue? c with
    | none =>
      rw [hc] at h
      cases h
    | some d =>
      rw [hc] at h
      exact List.forall_mem_cons.mpr ⟨by rw [hc]; rfl, ih _ h⟩

/-! ### Columns -/

/-- Zeros in front of a number do not change it. -/
theorem hexNumber?_zeros (k : Nat) (cs : List Char) :
    hexNumber? (List.replicate k '0' ++ cs) = hexNumber? cs := by
  induction k with
  | zero => rfl
  | succ k ih => exact ih

/-- **A number is read from its column.** -/
theorem hexNumber?_column (width n : Nat) :
    hexNumber? (padLeft '0' width (hexUpper n)).toList = some n := by
  unfold padLeft
  rw [String.toList_append, String.toList_ofList, hexNumber?_zeros, hexNumber?_hexUpper]

/-- Two columns with the same text have the same number in them. -/
theorem column_inj {v w m n : Nat}
    (h : padLeft '0' v (hexUpper m) = padLeft '0' w (hexUpper n)) : m = n := by
  have hm := hexNumber?_column v m
  rw [h, hexNumber?_column] at hm
  exact (Option.some.inj hm).symm

/-- A column has nothing but digits in it. -/
theorem isSome_hexValue?_of_mem_column {width n : Nat} :
    ∀ c ∈ (padLeft '0' width (hexUpper n)).toList, (hexValue? c).isSome :=
  isSome_hexValue?_of_hexNumber? (hexNumber?_column width n)

end CellMachine.Text
