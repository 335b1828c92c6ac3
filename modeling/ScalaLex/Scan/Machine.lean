import ScalaLex.Scan.Line
import ScalaLex.Scan.Mode

/-!
# The scanning machine

A source is read byte by byte. A carriage return counts as a line feed, and is skipped
where a line feed follows it. Each byte is dispatched by the mode, with the byte before it
as it is remembered and the byte after it as it stands in the source; the delimiters of
comments take both of their bytes at once.

Bytes of a word or a number gather in a pending lexeme, which is finished by whatever does
not continue it. A closing quote of a character literal becomes pending too, so the word
after it joins it. A second backslash of a pair is remembered as a space and so escapes
nothing.
-/

namespace ScalaLex

/-- How often each construct was opened. -/
structure Opened where
  blockComments : Nat := 0
  lineComments : Nat := 0
  strings : Nat := 0
  chars : Nat := 0
deriving Repr, DecidableEq, Inhabited

/-- One more construct, if the mode is one. -/
def Opened.record (o : Opened) : Mode → Opened
  | .inComment => { o with blockComments := o.blockComments + 1 }
  | .inLineComment => { o with lineComments := o.lineComments + 1 }
  | .inString => { o with strings := o.strings + 1 }
  | .inChar => { o with chars := o.chars + 1 }
  | .regular | .inNumber => o

/-- The state of a scan between two bytes. -/
structure Machine where
  mode : Mode := .regular
  /-- The bytes of the unfinished lexeme, the last one first. -/
  pending : List UInt8 := []
  /-- The line of the first pending byte. -/
  pendingLine : UInt32 := 1
  line : Line := {}
  /-- The byte before, as it is remembered. -/
  previous? : Option UInt8 := none
  /-- The line on which the last construct was opened. -/
  openedAt : UInt32 := 1
  /-- The finished lexemes, the last one first. -/
  finished : List Lexeme := []
  opened : Opened := {}
deriving Repr, DecidableEq, Inhabited

namespace Machine

/-- Finish the pending lexeme, if there is one. -/
def flush (m : Machine) : Machine :=
  if m.pending.isEmpty then m
  else
    { m with
      pending := []
      finished := ⟨m.pending.reverse, m.pendingLine⟩ :: m.finished }

/-- Add a byte to the pending lexeme. -/
def push (m : Machine) (b : UInt8) : Machine :=
  { m with
    pending := b :: m.pending
    pendingLine := if m.pending.isEmpty then m.line.number else m.pendingLine }

/-- Enter a construct. -/
def enter (m : Machine) (mode : Mode) : Machine :=
  { m with mode, openedAt := m.line.number, opened := m.opened.record mode }

/-- What a dispatched byte leads to : the machine, the byte to be remembered, and whether
the byte after it is taken too. -/
structure Step where
  machine : Machine
  remembered : UInt8
  two : Bool := false
deriving Repr, DecidableEq, Inhabited

/-- A byte outside every construct. -/
def regular (m : Machine) (b : UInt8) (next? : Option UInt8) : Step :=
  if b == 0x2F && next? == some 0x2A then ⟨m.flush.enter .inComment, b, true⟩
  else if b == 0x2F && next? == some 0x2F then ⟨m.flush.enter .inLineComment, b, true⟩
  else if b == 0x22 then ⟨m.flush.enter .inString, b, false⟩
  else if b == 0x27 then ⟨m.flush.enter .inChar, b, false⟩
  else if Byte.isDigit b then ⟨{ m.flush with mode := .inNumber }.push b, b, false⟩
  else if Byte.isWord b then ⟨m.push b, b, false⟩
  else if Byte.isBlank b then ⟨m.flush, b, false⟩
  else ⟨(m.flush.push b).flush, b, false⟩

/-- A byte inside a literal quoted by `quote`. -/
def quoted (m : Machine) (quote b : UInt8) (closed : Machine) : Step :=
  if b == quote && m.previous? != some 0x5C then ⟨{ closed with mode := .regular }, b, false⟩
  else if b == 0x5C && m.previous? == some 0x5C then ⟨m, 0x20, false⟩
  else ⟨m, b, false⟩

/-- The byte continues the pending number. -/
def continuesNumber (previous? : Option UInt8) (b : UInt8) : Bool :=
  Byte.isNumeric b || (Byte.isSign b && previous?.any Byte.isExponent)

/-- Dispatch a byte. -/
def dispatch (m : Machine) (b : UInt8) (next? : Option UInt8) : Step :=
  match m.mode with
  | .inComment =>
    if b == 0x2A && next? == some 0x2F then ⟨{ m with mode := .regular }, b, true⟩
    else ⟨m, b, false⟩
  | .inLineComment =>
    if b == Byte.lf then ⟨{ m with mode := .regular }, b, false⟩ else ⟨m, b, false⟩
  | .inString => m.quoted 0x22 b m
  | .inChar => m.quoted 0x27 b (m.push 0x27)
  | .inNumber =>
    if continuesNumber m.previous? b then ⟨{ m with pending := b :: m.pending }, b, false⟩
    else { m.flush with mode := .regular }.regular b next?
  | .regular => m.regular b next?

/-- The line number moves on once the byte before was a line feed. -/
def startByte (m : Machine) : Machine :=
  if m.previous? == some Byte.lf then { m with line := m.line.next } else m

/-- Read a source to its end. -/
def run (m : Machine) : List UInt8 → Machine
  | [] => m
  | raw :: rest =>
    let m := m.startByte
    if raw == Byte.cr && rest.head? == some Byte.lf then
      run { m with previous? := some Byte.cr } rest
    else
      let b := if raw == Byte.cr then Byte.lf else raw
      let step := { m with line := m.line.track b }.dispatch b rest.head?
      let m := { step.machine with previous? := some step.remembered }
      if step.two then
        match rest with
        | [] => m
        | _ :: rest => run m rest
      else run m rest
termination_by structural source => source

/-- The machine after a whole source, with its last lexeme finished. -/
def scan (source : List UInt8) : Machine := (run {} source).flush

/-- The lexemes in order. -/
def lexemes (m : Machine) : List Lexeme := m.finished.reverse

/-- The tokens of the lexemes. -/
def tokens (m : Machine) : List Token := m.lexemes.filterMap Lexeme.token?

end Machine

end ScalaLex
