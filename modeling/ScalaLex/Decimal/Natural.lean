/-!
# Reading natural numbers

A count is written as ASCII digits, one or more, with an optional plus sign in front. What
does not fit in 64 bits is refused.
-/

namespace ScalaLex.Natural

/-- The value of a digit string, read from the left onto `n`. -/
def ofDigitsOnto (n : Nat) : List Char → Option Nat
  | [] => some n
  | c :: rest => if c.isDigit then ofDigitsOnto (n * 10 + (c.toNat - '0'.toNat)) rest else none

/-- The value of one or more digits. -/
def ofDigits? : List Char → Option Nat
  | [] => none
  | cs => ofDigitsOnto 0 cs

/-- Without the plus sign in front. -/
def dropPlus : List Char → List Char
  | '+' :: rest => rest
  | cs => cs

/-- The largest count, that of 64 bits. -/
def maxCount : Nat := UInt64.size - 1

/-- The count that the text spells. -/
def read? (text : String) : Option Nat :=
  (ofDigits? (dropPlus text.toList)).filter (· ≤ maxCount)

end ScalaLex.Natural
