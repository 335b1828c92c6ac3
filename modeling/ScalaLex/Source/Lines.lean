import ScalaLex.Scan.Lexeme

/-!
# Lines of a source

Every line feed, carriage return, and carriage return with a line feed ends a line. What
is left after the last end is a line too, unless it is empty.
-/

namespace ScalaLex

/-- The ends of lines in a source, counted onto `n`. -/
def lineEndsOnto (n : Nat) : List UInt8 → Nat
  | [] => n
  | b :: rest =>
    if b == Byte.cr && rest.head? == some Byte.lf then lineEndsOnto n rest
    else if b == Byte.cr || b == Byte.lf then lineEndsOnto (n + 1) rest
    else lineEndsOnto n rest

/-- A byte that can end a line. -/
def isLineEnd (b : UInt8) : Bool := b == Byte.cr || b == Byte.lf

/-- The lines of a source. -/
def countLines (source : List UInt8) : Nat :=
  let ends := lineEndsOnto 0 source
  match source.getLast? with
  | some b => if isLineEnd b then ends else ends + 1
  | none => ends

end ScalaLex
