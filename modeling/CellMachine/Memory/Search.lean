/-!
# Binary search

The first index below a bound at which a test holds, found by halving. The test must be one that
stays true once it is true; then the answer is exact (`search_spec`).
-/

namespace CellMachine

/-- Halves the interval from `lo` up to `hi` until the first index with `p` is left. -/
def searchBetween (p : Nat → Bool) (lo hi : Nat) : Nat :=
  if lo < hi then
    let mid := (lo + hi) / 2
    if p mid then searchBetween p lo mid else searchBetween p (mid + 1) hi
  else lo
termination_by hi - lo

/-- The first index below `n` at which `p` holds, or `n` if there is none. -/
def search (n : Nat) (p : Nat → Bool) : Nat := searchBetween p 0 n

/-- Whatever holds below the interval and from its end on, of false and true tests, holds at the
index found. -/
theorem searchBetween_spec {p : Nat → Bool} (mono : ∀ i j, i ≤ j → p i = true → p j = true)
    {n lo hi : Nat} (hlo : lo ≤ hi) (hhi : hi ≤ n) (below : ∀ i, i < lo → p i = false)
    (above : ∀ i, hi ≤ i → i < n → p i = true) :
    searchBetween p lo hi ≤ n ∧ (∀ i, i < searchBetween p lo hi → p i = false) ∧
      (∀ i, searchBetween p lo hi ≤ i → i < n → p i = true) := by
  fun_induction searchBetween p lo hi with
  | case1 lo hi hlt mid hp ih =>
    refine ih (by omega) (by omega) below fun i hi _ => mono mid i hi hp
  | case2 lo hi hlt mid hp ih =>
    refine ih (by omega) hhi (fun i hi => ?_) above
    by_cases h : p i = true
    · exact absurd (mono i mid (by omega) h) hp
    · simpa using h
  | case3 lo hi hlt =>
    exact ⟨by omega, below, fun i h => above i (by omega)⟩

/-- The index found separates the false tests from the true ones. -/
theorem search_spec {p : Nat → Bool} (mono : ∀ i j, i ≤ j → p i = true → p j = true) (n : Nat) :
    search n p ≤ n ∧ (∀ i, i < search n p → p i = false) ∧
      (∀ i, search n p ≤ i → i < n → p i = true) :=
  searchBetween_spec mono (Nat.zero_le n) (Nat.le_refl n) (fun _ h => absurd h (Nat.not_lt_zero _))
    fun _ h h' => absurd h' (Nat.not_lt_of_le h)

end CellMachine
