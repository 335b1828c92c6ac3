/-!
# Decimals with a fixed number of places

`roundDiv` is the integer nearest to a quotient, a half going to the even neighbour.
`Fixed.quotient` writes a quotient with two places after the point by it.

A `Float` is read off exactly as a quotient of integers, so `Fixed.float` rounds the value
the bits stand for and not an approximation of it. `toBinary53` is the rounding of an
integer to 53 significant bits, the one that happens when it becomes a `Float`.
-/

namespace ScalaLex

/-- The integer nearest to `num / den`, a half going to the even neighbour. -/
def roundDiv (num den : Nat) : Nat :=
  let q := num / den
  let r := num % den
  if 2 * r < den then q
  else if den < 2 * r then q + 1
  else q + q % 2

/-- The integer with 53 significant bits nearest to `n`, a half going to the even one. -/
def toBinary53 (n : Nat) : Nat :=
  if n < 1 <<< 53 then n
  else
    let unit := 1 <<< (n.log2 - 52)
    roundDiv n unit * unit

/-- Integers below 2^53 are kept. -/
theorem toBinary53_eq_self {n : Nat} (h : n < 1 <<< 53) : toBinary53 n = n := if_pos h

namespace Fixed

/-- The text of `hundredths / 100` with two places. -/
def hundredths (n : Nat) : String :=
  let fraction := toString (n % 100)
  toString (n / 100) ++ "." ++ (if n % 100 < 10 then "0" ++ fraction else fraction)

/-- `num / den` with two places. -/
def quotient (num den : Nat) : String := hundredths (roundDiv (num * 100) den)

/-- A finite value that is not negative, as a quotient. -/
def ofFloat (x : Float) : Nat × Nat :=
  let bits := x.toBits.toNat
  let mantissa := bits % (1 <<< 52)
  let exponent := (bits >>> 52) % (1 <<< 11)
  if exponent = 0 then (mantissa, 1 <<< 1074)
  else
    let significand := (1 <<< 52) + mantissa
    if 1075 ≤ exponent then (significand <<< (exponent - 1075), 1)
    else (significand, 1 <<< (1075 - exponent))

/-- A finite value that is not negative, with two places. -/
def float (x : Float) : String := quotient (ofFloat x).1 (ofFloat x).2

end Fixed

end ScalaLex
