/-!
# Ranges of code points

A property of characters is given as an ascending list of inclusive ranges of code points.
Membership walks the list and stops at the first range that lies above the character.
-/

namespace CellMachine.Text

/-- Inclusive ranges of code points, in ascending order and apart from each other. -/
abbrev CodeRanges := List (Nat × Nat)

/-- Whether the code point `n` lies in one of the ranges. -/
def CodeRanges.has : CodeRanges → Nat → Bool
  | [], _ => false
  | (lo, hi) :: rest, n =>
    if n < lo then false
    else if n ≤ hi then true
    else CodeRanges.has rest n

/-- The ranges ascend: none is empty, and each ends below the start of the next. -/
def CodeRanges.Ascending : CodeRanges → Prop
  | [] => True
  | [(lo, hi)] => lo ≤ hi
  | (lo, hi) :: (lo', hi') :: rest =>
    lo ≤ hi ∧ hi < lo' ∧ CodeRanges.Ascending ((lo', hi') :: rest)

end CellMachine.Text
