import ScalaLex.Text.Hex
import ScalaLex.Toml.Value

/-!
# TOML numbers and dates

Integers are decimal, or hexadecimal, octal or binary behind a mark, and fit in 64 bits
with a sign. A single underscore can stand between two digits. A float has a fraction, an
exponent or both; a positive one that is too large to be finite is refused. Dates and
times have a fixed number of digits each and must exist in the calendar.
-/

namespace ScalaLex.Toml

/-- Digits in front, with single underscores between them, which are left out. -/
def digitRun (isDigit : Char → Bool) : List Char → List Char × List Char
  | '_' :: d :: rest =>
    if isDigit d then
      let (ds, rest) := digitRun isDigit rest
      (d :: ds, rest)
    else ([], '_' :: d :: rest)
  | d :: rest =>
    if isDigit d then
      let (ds, rest) := digitRun isDigit rest
      (d :: ds, rest)
    else ([], d :: rest)
  | [] => ([], [])

/-- One or more digits, the first of them no underscore. -/
def digits? (isDigit : Char → Bool) (cs : List Char) : Option (List Char × List Char) :=
  match cs with
  | d :: _ => if isDigit d then some (digitRun isDigit cs) else none
  | [] => none

/-- The value of digits to a base. -/
def ofDigits (base : Nat) (ds : List Char) : Nat :=
  ds.foldl (fun n d => n * base + (Hex.value? d).getD 0) 0

/-- A decimal digit. -/
def isDecimal (c : Char) : Bool := c.isDigit

/-- A hexadecimal digit. -/
def isHexadecimal (c : Char) : Bool := (Hex.value? c).isSome

/-- An octal digit. -/
def isOctal (c : Char) : Bool := '0' ≤ c && c ≤ '7'

/-- A binary digit. -/
def isBinary (c : Char) : Bool := c == '0' || c == '1'

/-- A sign, if there is one, and whether it is a minus. -/
def sign : List Char → Bool × List Char
  | '+' :: rest => (false, rest)
  | '-' :: rest => (true, rest)
  | cs => (false, cs)

/-- Decimal digits without a needless zero in front. -/
def whole? : List Char → Option (List Char × List Char)
  | '0' :: rest => some (['0'], rest)
  | cs => digits? isDecimal cs

/-- The integer fits in 64 bits with a sign. -/
def fits (n : Int) : Bool := -0x8000000000000000 ≤ n && n ≤ 0x7FFFFFFFFFFFFFFF

/-- Digits to a base as an integer. -/
def marked? (base : Nat) (isDigit : Char → Bool) (cs : List Char) :
    Option (Value × List Char) := do
  let (ds, rest) ← digits? isDigit cs
  let n : Int := ofDigits base ds
  if fits n then return (.integer n, rest) else none

/-- An integer. -/
def integer? : List Char → Option (Value × List Char)
  | '0' :: 'x' :: rest => marked? 16 isHexadecimal rest
  | '0' :: 'o' :: rest => marked? 8 isOctal rest
  | '0' :: 'b' :: rest => marked? 2 isBinary rest
  | cs => do
    let (isNegative, cs) := sign cs
    let (ds, rest) ← whole? cs
    let n : Int := if isNegative then -(ofDigits 10 ds : Int) else ofDigits 10 ds
    if fits n then return (.integer n, rest) else none

/-- The fraction of a float : a point and digits. -/
def fraction? : List Char → Option (List Char × List Char)
  | '.' :: rest => digits? isDecimal rest
  | _ => none

/-- The exponent of a float. -/
def exponent? : List Char → Option (Int × List Char)
  | e :: rest =>
    if e == 'e' || e == 'E' then do
      let (isNegative, rest) := sign rest
      let (ds, rest) ← digits? isDecimal rest
      return (if isNegative then -(ofDigits 10 ds : Int) else ofDigits 10 ds, rest)
    else none
  | [] => none

/-- The bound from which on a value is rounded to infinity : half a unit above the largest
finite one. -/
def floatBound : Nat := (1 <<< 1024) - (1 <<< 970)

/-- Digits times a power of ten are too large to be finite. Far from the bound the number
of digits before the point decides, and near it these digits : the bound is an integer. -/
def isInfinite (ds : List Char) (exponent : Int) : Bool :=
  let ds := ds.dropWhile (· == '0')
  let places := (ds.length : Int) + exponent
  if ds.isEmpty || places < 300 then false
  else if 320 < places then true
  else floatBound ≤ ofDigits 10 ((ds.take places.toNat).rightpad places.toNat '0')

/-- What was taken off the front. -/
def taken (cs rest : List Char) : String := String.ofList (cs.take (cs.length - rest.length))

/-- A float by name. -/
def namedFloat? (cs : List Char) : Option (Value × List Char) :=
  match (sign cs).2 with
  | 'i' :: 'n' :: 'f' :: rest => some (.float (taken cs rest), rest)
  | 'n' :: 'a' :: 'n' :: rest => some (.float (taken cs rest), rest)
  | _ => none

/-- A float in digits. -/
def writtenFloat? (cs : List Char) : Option (Value × List Char) := do
  let (isNegative, start) := sign cs
  let (whole, afterWhole) ← whole? start
  let (fraction, exponent, rest) ← match fraction? afterWhole with
    | some (fraction, afterFraction) =>
      match exponent? afterFraction with
      | some (e, rest) => some (fraction, e, rest)
      | none => some (fraction, 0, afterFraction)
    | none => (exponent? afterWhole).map fun (e, rest) => ([], e, rest)
  if !isNegative && isInfinite (whole ++ fraction) (exponent - fraction.length) then none
  else return (.float (taken cs rest), rest)

/-- A float. -/
def float? (cs : List Char) : Option (Value × List Char) := (writtenFloat? cs).or (namedFloat? cs)

/-- A fixed number of digits. -/
def fixed? : Nat → Nat → List Char → Option (Nat × List Char)
  | 0, n, rest => some (n, rest)
  | k + 1, n, d :: rest =>
    if d.isDigit then fixed? k (n * 10 + (d.toNat - '0'.toNat)) rest else none
  | _ + 1, _, [] => none

/-- A given character. -/
def mark? (c : Char) : List Char → Option (List Char)
  | d :: rest => if c == d then some rest else none
  | [] => none

/-- The days of a month. -/
def daysIn (year month : Nat) : Nat :=
  if month = 2 then
    if (year % 4 = 0 ∧ year % 100 ≠ 0) ∨ year % 400 = 0 then 29 else 28
  else if month = 4 ∨ month = 6 ∨ month = 9 ∨ month = 11 then 30
  else 31

/-- A date. -/
def date? (cs : List Char) : Option (List Char) := do
  let (year, cs) ← fixed? 4 0 cs
  let (month, cs) ← fixed? 2 0 (← mark? '-' cs)
  let (day, cs) ← fixed? 2 0 (← mark? '-' cs)
  if 1 ≤ month ∧ month ≤ 12 ∧ 1 ≤ day ∧ day ≤ daysIn year month then return cs else none

/-- The fraction of a second, if there is one. -/
def secondFraction (cs : List Char) : List Char :=
  match cs with
  | '.' :: d :: rest => if d.isDigit then rest.dropWhile Char.isDigit else cs
  | _ => cs

/-- A time of day. -/
def time? (cs : List Char) : Option (List Char) := do
  let (hour, cs) ← fixed? 2 0 cs
  let (minute, cs) ← fixed? 2 0 (← mark? ':' cs)
  let (second, cs) ← fixed? 2 0 (← mark? ':' cs)
  if hour ≤ 23 ∧ minute ≤ 59 ∧ second ≤ 60 then return secondFraction cs else none

/-- The offset of a time, if there is one. -/
def offset (cs : List Char) : List Char :=
  match cs with
  | c :: rest =>
    if c == 'Z' || c == 'z' then rest
    else if c == '+' || c == '-' then (hours? rest).getD cs
    else cs
  | [] => cs
where
  hours? (cs : List Char) : Option (List Char) := do
    let (hour, cs) ← fixed? 2 0 cs
    let (minute, cs) ← fixed? 2 0 (← mark? ':' cs)
    if hour ≤ 23 ∧ minute ≤ 59 then return cs else none

/-- A time after a date, if there is one. -/
def timeOfDate (cs : List Char) : List Char :=
  match cs with
  | c :: rest =>
    if c == 'T' || c == 't' || c == ' ' then
      match time? rest with
      | some rest => offset rest
      | none => cs
    else cs
  | [] => cs

/-- A date, a date with a time, or a time. -/
def datetime? (cs : List Char) : Option (Value × List Char) :=
  match date? cs with
  | some rest =>
    let rest := timeOfDate rest
    some (.datetime (taken cs rest), rest)
  | none => (time? cs).map fun rest => (.datetime (taken cs rest), rest)

/-- A date, a float or an integer. -/
def number? (cs : List Char) : Option (Value × List Char) :=
  ((datetime? cs).or (float? cs)).or (integer? cs)

end ScalaLex.Toml
