/-!
# Modes of a scan

At any point a scan is outside every construct, in a number, or inside a comment or a
quoted literal.
-/

namespace ScalaLex

/-- What the scan is inside of. -/
inductive Mode where
  | regular
  | inString
  | inChar
  | inComment
  | inLineComment
  | inNumber
deriving Repr, DecidableEq, Inhabited

namespace Mode

/-- The name of a mode in every output. -/
def name : Mode → String
  | regular => "REGULAR"
  | inString => "IN_STRING"
  | inChar => "IN_CHAR"
  | inComment => "IN_COMMENT"
  | inLineComment => "IN_LINECOMMENT"
  | inNumber => "IN_NUMBER"

/-- A construct that needs a closer and takes in all that follows when it has none. -/
def swallowsInput : Mode → Bool
  | inString | inChar | inComment => true
  | regular | inLineComment | inNumber => false

end Mode

end ScalaLex
