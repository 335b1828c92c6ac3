import ScalaLex.ReservedWords
import ScalaLex.Text.Utf8
import ScalaLex.Token.Basic

/-!
# Lexemes

A lexeme is a piece of the source as bytes, with the line of its first byte. Its class is
read off its first byte, `Lexeme.kind?`. Letters, the underscore and every byte above 127
continue a word, but only a letter or the underscore makes it an identifier, so a word that
starts with a byte above 127 counts as punctuation.
-/

namespace ScalaLex

namespace Byte

/-- The line feed. -/
def lf : UInt8 := 10

/-- The carriage return. -/
def cr : UInt8 := 13

/-- A space or any control below it. -/
def isBlank (b : UInt8) : Bool := b ≤ 0x20

/-- An ASCII letter. -/
def isLetter (b : UInt8) : Bool := (0x41 ≤ b && b ≤ 0x5A) || (0x61 ≤ b && b ≤ 0x7A)

/-- An ASCII digit. -/
def isDigit (b : UInt8) : Bool := 0x30 ≤ b && b ≤ 0x39

/-- A letter, the underscore or a byte above 127. -/
def isWord (b : UInt8) : Bool := isLetter b || b == 0x5F || 127 < b

/-- The letter of an exponent. -/
def isExponent (b : UInt8) : Bool := b == 0x65 || b == 0x45

/-- A digit, the point or the letter of an exponent. -/
def isNumeric (b : UInt8) : Bool := isDigit b || b == 0x2E || isExponent b

/-- A sign. -/
def isSign (b : UInt8) : Bool := b == 0x2B || b == 0x2D

end Byte

/-- A piece of the source, and the line on which it begins. -/
structure Lexeme where
  bytes : List UInt8
  line : UInt32
deriving Repr, DecidableEq, Inhabited

/-- The class of a lexeme, by its first byte. A word is reserved if its text is in the
table. An empty lexeme, and one of blanks only, has none. -/
def classify? (bytes : List UInt8) : Option Kind :=
  if bytes.all Byte.isBlank then none
  else match bytes with
    | [] => none
    | first :: _ =>
      if Byte.isLetter first || first == 0x5F then
        match Utf8.decode? bytes with
        | some word => if ReservedWords.contains word then some .reserved else some .identifier
        | none => some .identifier
      else if Byte.isDigit first then some .literal
      else some .operator

/-- The token of a lexeme. -/
def Lexeme.token? (l : Lexeme) : Option Token :=
  (classify? l.bytes).map fun kind => ⟨kind, Utf8.decode l.bytes, l.line⟩

end ScalaLex
