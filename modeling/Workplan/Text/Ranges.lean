/-!
# Sets of characters given by ranges

A property of characters is stored as the closed ranges of code points that have it, in
increasing order. Membership is a scan of the ranges.
-/

namespace Workplan
namespace Text

/-- Whether the code point of `c` lies in one of the closed `ranges`. -/
def inRanges (ranges : Array (Nat × Nat)) (c : Char) : Bool :=
  ranges.any fun range => range.1 ≤ c.toNat && c.toNat ≤ range.2

end Text
end Workplan
