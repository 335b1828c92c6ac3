import ScalaLex.Decimal.Fixed

/-!
# Sizes of files

The limits on the size of a source file, and the text in which a size is told : bytes as
they are, and above 1024 of a unit the next one, up to gigabytes, with two places. A size
is rounded to 53 significant bits first and is exact from there on.
-/

namespace ScalaLex.FileSize

/-- The largest file that is read. -/
def limit : Nat := 10 * 1024 * 1024

/-- The size above which a file counts as large. -/
def largeLimit : Nat := 1024 * 1024

/-- The size is that of a large file. -/
def isLarge (size : Nat) : Bool := largeLimit < size

/-- The name of a unit. Each unit is 1024 of the one before it. -/
def unitName : Nat → String
  | 0 => "B"
  | 1 => "KB"
  | 2 => "MB"
  | _ => "GB"

/-- How many bytes a unit has. -/
def unitBytes : Nat → Nat
  | 0 => 1
  | u + 1 => 1024 * unitBytes u

/-- The unit in which a size is told. -/
def unit (size : Nat) : Nat :=
  let rounded := toBinary53 size
  if rounded < unitBytes 1 then 0
  else if rounded < unitBytes 2 then 1
  else if rounded < unitBytes 3 then 2
  else 3

/-- The size for people. -/
def text (size : Nat) : String :=
  let u := unit size
  (if u = 0 then toString size else Fixed.quotient (toBinary53 size) (unitBytes u)) ++ " " ++
    unitName u

end ScalaLex.FileSize
