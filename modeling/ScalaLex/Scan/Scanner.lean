import ScalaLex.Decimal.Fixed
import ScalaLex.Log.Logged
import ScalaLex.Preferences.Basic
import ScalaLex.Scan.Metrics
import ScalaLex.Token.Counts

/-!
# Scanning a source

`Scan.ofSource` is the whole scan of a source as a value : its tokens, with adjacent
operators joined, and its figures. A `Scanner` holds the preferences and the scan it made
last, and logs how a scan went. Scanning never fails : a comment or quoted literal that is
not closed takes in the rest of the source.
-/

namespace ScalaLex

/-- Tokens and figures of a source. -/
structure Scan where
  tokens : List Token := []
  metrics : Metrics := {}
deriving Repr, DecidableEq, Inhabited

namespace Scan

/-- The scan that a finished machine amounts to, over a source of `size` bytes. -/
def ofMachine (prefs : ScanPreferences) (elapsed : Span) (size : Nat) (m : Machine) : Scan :=
  let raw := m.tokens
  let joined := joinOperators raw
  let tokens := joined.tokens
  { tokens
    metrics :=
      { bytesScanned := size
        lineCount := m.line.number
        rawTokens := raw.length
        totalTokens := tokens.length
        absorbedOperators := joined.absorbed
        opened := if prefs.collectDetails then m.opened else {}
        unterminated? := m.unterminated?
        elapsed
        usage := if prefs.trackOperators then Usage.ofTokens tokens else [] } }

/-- The scan of a source. -/
def ofSource (prefs : ScanPreferences) (elapsed : Span) (source : List UInt8) : Scan :=
  ofMachine prefs elapsed source.length (Machine.scan source)

/-- The counts of the tokens. -/
def counts (s : Scan) : Counts := Counts.ofTokens s.tokens

end Scan

/-- The tokens of a source. -/
def tokenize (source : List UInt8) : List Token := (Scan.ofSource {} {} source).tokens

/-- A scanner and the scan it made last. -/
structure Scanner where
  preferences : ScanPreferences := {}
  last : Scan := {}
deriving Repr, DecidableEq, Inhabited

namespace Scanner

/-- The event for the end of the input. -/
def endEvent (m : Machine) : Event :=
  (Event.debug "Scan reached end of input").withPairs
    [("final_state", m.mode.name), ("last_line_blank", Pairs.truth m.line.isBlank),
      ("last_line_ends_with", String.singleton m.line.endsWith)]

/-- The warning for a construct that is still open. -/
def openEvent (u : Unterminated) (lineCount : UInt32) : Event :=
  ((Event.warningWithCode u.mode.unterminatedCode
    "Input ended inside an unterminated construct").withPairs
      [("state", u.mode.name), ("last_line", toString lineCount)]).withLine u.line

/-- The warnings that a scan calls for. -/
def warnings (prefs : ScanPreferences) (m : Metrics) : List Event :=
  match m.unterminated? with
  | some u => if prefs.warnUnterminated then [openEvent u m.lineCount] else []
  | none => []

/-- The event for a finished scan. -/
def doneEvent (m : Metrics) : Event :=
  (Event.success .scanComplete "Lexical scan completed").withPairs
    [("bytes", toString m.bytesScanned), ("lines", toString m.lineCount),
      ("raw_tokens", toString m.rawTokens), ("tokens", toString m.totalTokens),
      ("absorbed_operators", toString m.absorbedOperators),
      ("bytes_per_ms", Fixed.float m.rate)]

/-- Scan a source, which took `elapsed`, in place of the last one. -/
def parse (s : Scanner) (elapsed : Span) (source : List UInt8) : Logged Scanner := do
  let size := source.length
  Logged.emit ((Event.debug "Starting lexical scan").withPair "bytes" (toString size))
  let machine := Machine.scan source
  Logged.emit (endEvent machine)
  let scan := Scan.ofMachine s.preferences elapsed size machine
  Logged.emitAll (warnings s.preferences scan.metrics)
  Logged.emit (doneEvent scan.metrics)
  return { s with last := scan }

/-- The scanner holds the scan of the source. -/
theorem last_parse (s : Scanner) (elapsed : Span) (source : List UInt8) :
    (s.parse elapsed source).value.last = Scan.ofSource s.preferences elapsed source := rfl

/-- The tokens of the last scan, one per line. -/
def listing (s : Scanner) : String := Token.listing s.last.tokens

end Scanner

end ScalaLex
