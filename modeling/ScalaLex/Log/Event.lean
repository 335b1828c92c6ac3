import ScalaLex.Json.Printer
import ScalaLex.Log.Code
import ScalaLex.Log.Level
import ScalaLex.Text.Order
import ScalaLex.Time

/-!
# Log events

An event has a level, a code, a message, and where it happened, and it carries pairs of a
name and a value. The pairs are kept in the order of their names. There are at most 32 of
them: a further name is dropped, while the value of a name that is there can still change.

`Event.line` writes an event for people and `Event.toJson` for programs.
-/

namespace ScalaLex

/-- Pairs of a name and a value, in the order of the names. -/
abbrev Pairs := List (String × String)

namespace Pairs

/-- How many names are kept. -/
def limit : Nat := 32

/-- The name is there. -/
def hasKey (ps : Pairs) (key : String) : Bool := ps.any (·.1 == key)

/-- Put a pair at its place, over the pair of the same name. -/
def insert (key value : String) : Pairs → Pairs
  | [] => [(key, value)]
  | (k, v) :: ps =>
    if Text.precedes key k then (key, value) :: (k, v) :: ps
    else if key == k then (key, value) :: ps
    else (k, v) :: insert key value ps

/-- Put a pair, unless its name is new and there is no room. -/
def add (ps : Pairs) (key value : String) : Pairs :=
  if ps.length < limit || hasKey ps key then insert key value ps else ps

/-- The value that stands for a truth value. -/
def truth (b : Bool) : String := if b then "true" else "false"

end Pairs

/-- Something worth telling. -/
structure Event where
  level : Level
  code : Code
  message : String
  /-- The source file that the event is about. -/
  file? : Option String := none
  /-- The line, counted from one, that the event is about. -/
  line? : Option UInt32 := none
  context : Pairs := []
  time : Instant := { seconds := 0 }
deriving Repr, DecidableEq, Inhabited

namespace Event

/-- An error. -/
def error (code : Code) (message : String) : Event := { level := .error, code, message }

/-- A warning without a code of its own. -/
def warning (message : String) : Event :=
  { level := .warning, code := .genericWarning, message }

/-- A warning with a code. -/
def warningWithCode (code : Code) (message : String) : Event :=
  { level := .warning, code, message }

/-- Information without a code of its own. -/
def info (message : String) : Event := { level := .info, code := .genericInfo, message }

/-- Information that carries the code of a success. -/
def success (code : Code) (message : String) : Event := { level := .info, code, message }

/-- Information for those who look for faults. -/
def debug (message : String) : Event := { level := .debug, code := .genericDebug, message }

/-- The event with one more pair. -/
def withPair (e : Event) (key value : String) : Event :=
  { e with context := e.context.add key value }

/-- The event with more pairs, in order. -/
def withPairs (e : Event) (ps : List (String × String)) : Event :=
  ps.foldl (fun e p => e.withPair p.1 p.2) e

/-- The event about a file. -/
def withFile (e : Event) (file : String) : Event := { e with file? := some file }

/-- The event about a line. -/
def withLine (e : Event) (line : UInt32) : Event := { e with line? := some line }

/-- The event is an error. -/
def isError (e : Event) : Bool := e.level == .error

/-- The event is a warning. -/
def isWarning (e : Event) : Bool := e.level == .warning

/-- Where the event happened, in parentheses. -/
def place (e : Event) : String :=
  match e.file?, e.line? with
  | some file, some line => " (" ++ file ++ ":" ++ toString line ++ ")"
  | some file, none => " (" ++ file ++ ")"
  | none, some line => " (line " ++ toString line ++ ")"
  | none, none => ""

/-- The event for people. -/
def text (e : Event) : String :=
  let pairs := e.context.map fun p => p.1 ++ "=" ++ p.2
  "[" ++ e.level.name ++ "] " ++ e.code.text ++ " - " ++ e.message ++ e.place ++
    (if pairs.isEmpty then "" else " \x7b" ++ String.intercalate ", " pairs ++ "\x7d")

/-- The members of the event as JSON, by name. What is missing is left out. -/
def members (e : Event) : List (String × Json) :=
  [("category", .ofText e.code.category), ("code", .ofText e.code.text)] ++
    (if e.context.isEmpty then []
      else [("context", .ofMembers (e.context.map fun p => (p.1, .ofText p.2)))]) ++
    (match e.file? with
      | some file => [("file", .ofText file)]
      | none => []) ++
    [("level", .ofText e.level.name)] ++
    (match e.line? with
      | some line => [("line", .ofNat line.toNat)]
      | none => []) ++
    [("message", .ofText e.message), ("severity", .ofText e.code.severity.name),
      ("timestamp", .ofNat e.time.sinceEpoch)]

/-- The event for programs. -/
def toJson (e : Event) : Json := .ofMembers e.members

/-- The event for programs, on one line. -/
def jsonText (e : Event) : String := e.toJson.write false

end Event

end ScalaLex
