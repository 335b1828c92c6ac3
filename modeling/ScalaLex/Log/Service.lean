import ScalaLex.Log.Logged

/-!
# Where events go

A `Service` lets events through by their level and says in which form they are written.
`Service.lines` is what it writes for a log. A `Memory` keeps events instead of writing
them : the last 256 of those recorded. `MemoryCommand.runAll` is what a memory behind a
service keeps in the course of a program.
-/

namespace ScalaLex

/-- The form in which events are written. -/
inductive Sink where
  /-- A line for people. -/
  | console
  /-- A line of JSON. -/
  | structured
  /-- Nothing. -/
  | discard
deriving Repr, DecidableEq, Inhabited

/-- A filter in front of a sink. -/
structure Service where
  sink : Sink
  limit : Level
  /-- Events are marked with the file in whose course they were given out. -/
  includesFile : Bool := true
deriving Repr, DecidableEq, Inhabited

namespace Service

/-- An event of this level gets through. -/
def allows (s : Service) (l : Level) : Bool := s.limit.allows l

/-- The event as the service sees it. -/
def mark (s : Service) (e : Entry) : Event := if s.includesFile then e.located else e.event

/-- The events of a log that get through. -/
def accepted (s : Service) (log : List Entry) : List Event :=
  (log.map s.mark).filter fun e => s.allows e.level

/-- The line written for an event at a time. -/
def line? (s : Service) (time : Instant) (e : Event) : Option String :=
  match s.sink with
  | .console => some e.text
  | .structured => some { e with time }.jsonText
  | .discard => none

/-- The lines written for a log. -/
def lines (s : Service) (time : Instant) (log : List Entry) : List String :=
  (s.accepted log).filterMap (s.line? time)

end Service

/-- The events kept, the oldest first. -/
structure Memory where
  events : List Event := []
deriving Repr, DecidableEq, Inhabited

namespace Memory

/-- How many events are kept. -/
def capacity : Nat := 256

/-- Keep one more event, dropping the oldest if there is no room. -/
def record (m : Memory) (e : Event) : Memory :=
  if m.events.length < capacity then ⟨m.events ++ [e]⟩ else ⟨m.events.tail ++ [e]⟩

/-- Keep one more event if the level gets through. -/
def log (m : Memory) (limit : Level) (e : Event) : Memory :=
  if limit.allows e.level then m.record e else m

/-- How many events are there. -/
def count (m : Memory) : Nat := m.events.length

/-- The kept events with a code. -/
def withCode (m : Memory) (c : Code) : List Event := m.events.filter (·.code == c)

/-- An event with a code is there. -/
def hasCode (m : Memory) (c : Code) : Bool := m.events.any (·.code == c)

end Memory

/-- Something a program does with a service in front of a memory. -/
inductive MemoryCommand where
  /-- Hand the service an event. -/
  | log (event : Event)
  /-- Hand the service an error that is made up at a time. -/
  | error (code : Code) (message : String) (time : Instant)
  /-- Forget the events that are kept. -/
  | clear
deriving Repr, DecidableEq, Inhabited

namespace MemoryCommand

/-- Run one command. -/
def run (s : Service) (m : Memory) : MemoryCommand → Memory
  | .log event => m.log s.limit event
  | .error code message time => m.log s.limit { Event.error code message with time }
  | .clear => {}

/-- Run commands in order, with nothing kept at first. -/
def runAll (s : Service) (cs : List MemoryCommand) : Memory := cs.foldl (run s) {}

end MemoryCommand

end ScalaLex
