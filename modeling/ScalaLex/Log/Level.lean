import ScalaLex.Text.Blank
import ScalaLex.Text.Lowercase

/-!
# Levels of log events

Levels are ordered by how much a filter set to them lets through : errors least, debug
output most.
-/

namespace ScalaLex

/-- How important an event is. -/
inductive Level where
  | error
  | warning
  | info
  | debug
deriving Repr, DecidableEq, Inhabited

namespace Level

/-- Every level, the most important first. -/
def all : List Level := [error, warning, info, debug]

/-- The place of a level in the order. -/
def rank : Level → Nat
  | error => 0
  | warning => 1
  | info => 2
  | debug => 3

/-- The name of a level in log output. -/
def name : Level → String
  | error => "ERROR"
  | warning => "WARN"
  | info => "INFO"
  | debug => "DEBUG"

/-- The level of a name. -/
def ofName? (s : String) : Option Level := all.find? (·.name == s)

/-- The word for a level in preference files. -/
def word : Level → String
  | error => "error"
  | warning => "warning"
  | info => "info"
  | debug => "debug"

/-- The level of a word. -/
def ofWord? (s : String) : Option Level := all.find? (·.word == s)

/-- A filter set to `limit` lets an event of level `l` through. -/
def allows (limit l : Level) : Bool := l.rank ≤ limit.rank

/-- The level that a user names by its word or its number, in any case and with blanks
around it. -/
def read? (s : String) : Option Level :=
  match Text.lowercase (Text.trim s) with
  | "error" | "0" => some error
  | "warning" | "warn" | "1" => some warning
  | "info" | "2" => some info
  | "debug" | "3" => some debug
  | _ => none

end Level

end ScalaLex
