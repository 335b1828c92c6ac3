/-!
# Moments and spans of time

An `Instant` is a moment of civil time and a `Span` a measured duration, both to the
nanosecond. `Instant.toText` writes a moment in the Gregorian calendar at zero offset,
with as many groups of three fraction digits as are needed to be exact.

A leap second has no number of its own. It is told by the second before it with the
nanoseconds counted on, and written as second 60.
-/

namespace ScalaLex

/-- Seconds since the start of 1970, and nanoseconds on top. -/
structure Instant where
  seconds : Int
  /-- Below a second's worth, or below two in a leap second. -/
  nanos : Nat := 0
deriving Repr, DecidableEq, Inhabited

/-- A duration in seconds and nanoseconds. -/
structure Span where
  seconds : UInt64 := 0
  nanos : UInt32 := 0
deriving Repr, DecidableEq, Inhabited

namespace Span

/-- The duration in seconds. -/
def toSeconds (s : Span) : Float := s.seconds.toFloat + s.nanos.toFloat / 1e9

/-- The duration in milliseconds. -/
def toMillis (s : Span) : Float := s.toSeconds * 1000.0

/-- Bytes handled per millisecond, zero where no time passed. -/
def rate (s : Span) (bytes : Nat) : Float :=
  if s.toMillis > 0.0 then bytes.toUInt64.toFloat / s.toMillis else 0.0

/-- The span from a reading of a nanosecond clock to a later one. -/
def ofNanos (n : Nat) : Span := ⟨(n / 1000000000).toUInt64, (n % 1000000000).toUInt32⟩

end Span

namespace Instant

/-- Year, month and day of a day counted from the start of 1970. A year is taken to begin
in March, so that the leap day is its last, and 400 such years have 146097 days. -/
def civil (days : Int) : Int × Nat × Nat :=
  let z := days + 719468
  let era := z.fdiv 146097
  let dayOfEra := (z - era * 146097).toNat
  let yearOfEra := (dayOfEra - dayOfEra / 1460 + dayOfEra / 36524 - dayOfEra / 146096) / 365
  let dayOfYear := dayOfEra - (365 * yearOfEra + yearOfEra / 4 - yearOfEra / 100)
  let m := (5 * dayOfYear + 2) / 153
  let month := if m < 10 then m + 3 else m - 9
  let year := (yearOfEra : Int) + era * 400
  (if month ≤ 2 then year + 1 else year, month, dayOfYear - (153 * m + 2) / 5 + 1)

/-- `n` with at least `width` digits. -/
def padded (width n : Nat) : String :=
  let digits := toString n
  String.ofList (List.replicate (width - digits.length) '0') ++ digits

/-- Four digits for a year from 0 to 9999; any other has a sign. -/
def yearText (year : Int) : String :=
  if 0 ≤ year ∧ year ≤ 9999 then padded 4 year.toNat
  else (if year < 0 then "-" else "+") ++ padded 4 year.natAbs

/-- The fraction of a second, in the fewest groups of three digits. -/
def fractionText (nanos : Nat) : String :=
  if nanos = 0 then ""
  else if nanos % 1000000 = 0 then "." ++ padded 3 (nanos / 1000000)
  else if nanos % 1000 = 0 then "." ++ padded 6 (nanos / 1000)
  else "." ++ padded 9 nanos

/-- How many nanoseconds a second has. -/
def nanosPerSecond : Nat := 1000000000

/-- The moment as `YYYY-MM-DDThh:mm:ss`, its fraction, and `Z`. -/
def toText (t : Instant) : String :=
  let days := t.seconds.fdiv 86400
  let second := (t.seconds - days * 86400).toNat
  let (year, month, day) := civil days
  yearText year ++ "-" ++ padded 2 month ++ "-" ++ padded 2 day ++ "T" ++
    padded 2 (second / 3600) ++ ":" ++ padded 2 (second / 60 % 60) ++ ":" ++
    padded 2 (second % 60 + t.nanos / nanosPerSecond) ++
    fractionText (t.nanos % nanosPerSecond) ++ "Z"

/-- Whole seconds since the start of 1970, zero before it. -/
def sinceEpoch (t : Instant) : Nat := t.seconds.toNat

end Instant

end ScalaLex
