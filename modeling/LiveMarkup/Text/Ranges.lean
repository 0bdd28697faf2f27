/-!
# Sets of characters as ranges of code points

The character properties that texts are read and written with are tables of ranges.
-/

namespace LiveMarkup

/-- A set of characters: the first and the last code point of each of its ranges, in ascending
order. -/
abbrev CharRanges := List (Nat × Nat)

/-- Whether a character lies in one of the ranges. -/
def CharRanges.contains (ranges : CharRanges) (c : Char) : Bool :=
  ranges.any fun range => range.1 ≤ c.toNat && c.toNat ≤ range.2

end LiveMarkup
