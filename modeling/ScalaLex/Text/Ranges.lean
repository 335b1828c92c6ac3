/-!
# Sets of characters given by ranges

A property of characters is written down as the list of its ranges, both ends included.
-/

namespace ScalaLex

/-- Ranges of scalar values, both ends included. -/
abbrev Ranges := List (Nat × Nat)

/-- `c` lies in one of the ranges. -/
def Ranges.contains (rs : Ranges) (c : Char) : Bool :=
  rs.any fun r => r.1 ≤ c.toNat && c.toNat ≤ r.2

end ScalaLex
