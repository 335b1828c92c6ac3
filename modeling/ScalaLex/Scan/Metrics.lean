import ScalaLex.Log.Code
import ScalaLex.Scan.Machine
import ScalaLex.Text.Order
import ScalaLex.Time
import ScalaLex.Token.Merge

/-!
# Figures of a scan

What a scan found besides its tokens : how much it read, how often it opened each
construct, and the construct it was inside of when the input ended.
-/

namespace ScalaLex

/-- A comment or quoted literal that is open when the input ends. -/
structure Unterminated where
  mode : Mode
  /-- The line on which it was opened. -/
  line : UInt32
deriving Repr, DecidableEq, Inhabited

/-- The code under which an open construct is warned of. -/
def Mode.unterminatedCode : Mode → Code
  | .inChar => .unterminatedChar
  | .inComment => .unterminatedComment
  | _ => .unterminatedString

/-- How often each operator is used, in the order of their texts. -/
abbrev Usage := List (String × Nat)

/-- One more use of an operator. -/
def Usage.record (operator : String) : Usage → Usage
  | [] => [(operator, 1)]
  | (o, n) :: us =>
    if Text.precedes operator o then (operator, 1) :: (o, n) :: us
    else if operator == o then (o, n + 1) :: us
    else (o, n) :: Usage.record operator us

/-- The uses of the operators in a list of tokens. -/
def Usage.ofTokens (ts : List Token) : Usage :=
  (ts.filter (·.isOperator)).foldl (fun u t => u.record t.value) []

/-- Figures of a scan. -/
structure Metrics where
  bytesScanned : Nat := 0
  lineCount : UInt32 := 0
  /-- Tokens before adjacent operators are joined. -/
  rawTokens : Nat := 0
  totalTokens : Nat := 0
  /-- Operators taken in by the one before. -/
  absorbedOperators : Nat := 0
  opened : Opened := {}
  unterminated? : Option Unterminated := none
  elapsed : Span := {}
  usage : Usage := []
deriving Repr, DecidableEq, Inhabited

/-- Bytes scanned per millisecond. -/
def Metrics.rate (m : Metrics) : Float := m.elapsed.rate m.bytesScanned

/-- The construct that a finished machine is inside of. -/
def Machine.unterminated? (m : Machine) : Option Unterminated :=
  if m.mode.swallowsInput then some ⟨m.mode, m.openedAt⟩ else none

end ScalaLex
