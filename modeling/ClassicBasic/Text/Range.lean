/-!
# Ranges of code points

A class of characters is a list of inclusive ranges, in ascending order and apart.
-/

namespace ClassicBasic.Text

/-- Whether `n` lies in one of the inclusive ranges. -/
def inRanges (ranges : List (Nat × Nat)) (n : Nat) : Bool :=
  ranges.any fun r => r.1 ≤ n && n ≤ r.2

end ClassicBasic.Text
