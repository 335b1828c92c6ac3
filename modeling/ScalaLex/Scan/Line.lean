import ScalaLex.Scan.Lexeme

/-!
# The current line

A scan keeps the number of the line it is on, and the first and the last byte of that line
that are neither space nor tab. A line feed can be the first such byte of its line and is
never the last.
-/

namespace ScalaLex

/-- The line that a scan is on. -/
structure Line where
  /-- Counted from one. -/
  number : UInt32 := 1
  first? : Option UInt8 := none
  last? : Option UInt8 := none
deriving Repr, DecidableEq, Inhabited

namespace Line

/-- The line after this one. -/
def next (l : Line) : Line := { number := l.number + 1 }

/-- The line with one more byte on it. -/
def track (l : Line) (b : UInt8) : Line :=
  if b == 0x20 || b == 0x09 then l
  else
    { l with
      first? := l.first?.or (some b)
      last? := if b == Byte.lf then l.last? else some b }

/-- Nothing but spaces and tabs so far. -/
def isBlank (l : Line) : Bool := l.first?.isNone

/-- The last byte that is neither space nor tab, as the character of that number; a space
if there is none. -/
def endsWith (l : Line) : Char :=
  match l.last? with
  | some b => Char.ofNat b.toNat
  | none => ' '

end Line

end ScalaLex
