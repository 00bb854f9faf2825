/-!
# Ranges of code points

A property of characters is given by the ranges of the code points that have it, both ends
included. Ranges that ascend, with a gap after each, are the shortest way to give it.

* `holds` decides whether a character lies in one of some ranges.
* `ascends` decides whether ranges ascend and do not touch.
-/

namespace SharedCells.Text

/-- The first and the last code point of a range. -/
abbrev CodeRange := Nat × Nat

namespace CodeRange

/-- Whether a character lies in one of some ranges. -/
def holds (ranges : List CodeRange) (c : Char) : Bool :=
  ranges.any fun (low, high) => low ≤ c.toNat && c.toNat ≤ high

/-- Whether ranges ascend, with a gap after each. -/
def ascends : List CodeRange → Bool
  | [] => true
  | [(low, high)] => low ≤ high
  | (low, high) :: (low', high') :: rest =>
    low ≤ high && high + 1 < low' && ascends ((low', high') :: rest)

end CodeRange

end SharedCells.Text
