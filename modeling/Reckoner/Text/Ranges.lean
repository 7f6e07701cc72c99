/-!
# Sets of code points

A class of characters is given by the closed intervals of code points that make it up.
-/

namespace Reckoner.Text

/-- Closed intervals of code points, in ascending order. -/
abbrev Ranges := List (Nat × Nat)

namespace Ranges

/-- Whether an interval holds a code point. -/
def holds (n : Nat) (range : Nat × Nat) : Bool :=
  decide (range.1 ≤ n) && decide (n ≤ range.2)

/-- Whether some interval holds a code point. -/
def contains (ranges : Ranges) (n : Nat) : Bool :=
  ranges.any (holds n)

/-- The first interval that holds a code point. -/
def find? (ranges : Ranges) (n : Nat) : Option (Nat × Nat) :=
  List.find? (holds n) ranges

theorem contains_eq_isSome_find? (ranges : Ranges) (n : Nat) :
    ranges.contains n = (ranges.find? n).isSome := by
  rw [Bool.eq_iff_iff]
  simp [contains, find?, List.find?_isSome]

end Ranges

end Reckoner.Text
