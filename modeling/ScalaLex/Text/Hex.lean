/-!
# Hexadecimal digits
-/

namespace ScalaLex.Hex

/-- The lower-case digit of a number below 16. -/
def digit (n : Nat) : Char := Nat.digitChar n

/-- The upper-case digit of a number below 16. -/
def upperDigit (n : Nat) : Char := (Nat.digitChar n).toUpper

/-- The value of a digit. -/
def value? (c : Char) : Option Nat :=
  if '0' ≤ c ∧ c ≤ '9' then some (c.toNat - '0'.toNat)
  else if 'a' ≤ c ∧ c ≤ 'f' then some (c.toNat - 'a'.toNat + 10)
  else if 'A' ≤ c ∧ c ≤ 'F' then some (c.toNat - 'A'.toNat + 10)
  else none

/-- The value of four digits. -/
def value4? (a b c d : Char) : Option Nat := do
  return (((← value? a) * 16 + (← value? b)) * 16 + (← value? c)) * 16 + (← value? d)

/-- The scalar value of a number, which is no surrogate. -/
def scalar? (n : Nat) : Option Char :=
  if n < 0xD800 ∨ (0xDFFF < n ∧ n < 0x110000) then some (Char.ofNat n) else none

theorem value?_digit : ∀ n < 16, value? (digit n) = some n := by decide

end ScalaLex.Hex
