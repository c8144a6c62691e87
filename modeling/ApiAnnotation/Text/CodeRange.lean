/-!
# Ranges of code points

A Unicode property is written as a table of ranges of code points, in increasing order.
-/

namespace ApiAnnotation

/-- A table of ranges of code points: the first and the last of each. -/
abbrev CodeRanges := List (Nat × Nat)

/-- Whether the code point of a character lies in one of the ranges. -/
def CodeRanges.contains (ranges : CodeRanges) (c : Char) : Bool :=
  ranges.any fun (first, last) => first ≤ c.toNat && c.toNat ≤ last

end ApiAnnotation
