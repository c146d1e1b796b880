/-
# Ranges of code points

A property of characters that follows no formula is given as a list of ranges
of code points, first and last included, in ascending order.
-/

namespace LexAutomata.Text

/-- Does the character's code point fall into one of the ranges? -/
def inRanges (ranges : List (Nat × Nat)) (c : Char) : Bool :=
  ranges.any fun r => r.1 ≤ c.toNat && c.toNat ≤ r.2

end LexAutomata.Text
