namespace EntitySplit

namespace Text

/-- Whether a code point lies in one of the ranges, their ends included. -/
def inRanges (ranges : List (Nat × Nat)) (code : Nat) : Bool :=
  ranges.any fun (low, high) => low ≤ code && code ≤ high

end Text

end EntitySplit
