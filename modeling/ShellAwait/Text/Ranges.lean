/-! # Sorted ranges of code points

A character class is a list of ranges in increasing order. Membership stops at the first range that
starts above the code point, so a small code point is decided after a few comparisons.
-/

namespace ShellAwait.Text

abbrev Ranges := List (Nat × Nat)

def Ranges.contains : Ranges → Nat → Bool
  | [], _ => false
  | (low, high) :: rest, n =>
      if n < low then false else n ≤ high || Ranges.contains rest n

end ShellAwait.Text
