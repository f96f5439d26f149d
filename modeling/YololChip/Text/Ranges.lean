/-!
# Ranges of code points

A property of characters is written as the list of the ranges of code points that
have it.
-/

namespace YololChip.Text

/-- Whether a character's code point lies in one of the ranges. -/
def inRanges (ranges : List (Nat × Nat)) (c : Char) : Bool :=
  ranges.any fun (first, last) => first ≤ c.toNat && c.toNat ≤ last

end YololChip.Text
