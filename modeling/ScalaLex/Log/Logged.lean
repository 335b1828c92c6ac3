import ScalaLex.Log.Event

/-!
# Results with a log

A computation that logs is its result together with the events it gave out, in order. An
event remembers the file in whose course it was given out, so the log of a part can be
placed in the course of a file as a whole (`Logged.within`), and the innermost file counts.

The result of a sequence does not depend on what was logged (`value_bind`), and its log is
the logs of its parts one after the other (`entries_bind`).
-/

namespace ScalaLex

/-- An event, and the file in whose course it was given out. -/
structure Entry where
  during? : Option String
  event : Event
deriving Repr, DecidableEq, Inhabited

/-- The event with the file it belongs to : the file in whose course it was given out
comes before one that it names itself. -/
def Entry.located (e : Entry) : Event :=
  match e.during? with
  | some file => e.event.withFile file
  | none => e.event

/-- A result and the events given out on the way. -/
structure Logged (α : Type) where
  value : α
  entries : List Entry := []
deriving Repr, DecidableEq, Inhabited

namespace Logged

variable {α β : Type}

/-- A result with nothing logged. -/
protected def pure (a : α) : Logged α := ⟨a, []⟩

/-- One computation after the other. -/
protected def bind (x : Logged α) (f : α → Logged β) : Logged β :=
  let y := f x.value
  ⟨y.value, x.entries ++ y.entries⟩

instance : Monad Logged where
  pure := Logged.pure
  bind := Logged.bind

/-- Give out an event. -/
def emit (e : Event) : Logged Unit := ⟨(), [⟨none, e⟩]⟩

/-- Give out events in order. -/
def emitAll (es : List Event) : Logged Unit := ⟨(), es.map fun e => ⟨none, e⟩⟩

/-- The same computation in the course of a file. -/
def within (file : String) (x : Logged α) : Logged α :=
  { x with entries := x.entries.map fun e => { e with during? := e.during?.or (some file) } }

@[simp] theorem value_pure (a : α) : (pure a : Logged α).value = a := rfl

@[simp] theorem entries_pure (a : α) : (pure a : Logged α).entries = [] := rfl

@[simp] theorem value_bind (x : Logged α) (f : α → Logged β) :
    (x >>= f).value = (f x.value).value := rfl

@[simp] theorem entries_bind (x : Logged α) (f : α → Logged β) :
    (x >>= f).entries = x.entries ++ (f x.value).entries := rfl

@[simp] theorem value_within (file : String) (x : Logged α) : (within file x).value = x.value := rfl

end Logged

end ScalaLex
