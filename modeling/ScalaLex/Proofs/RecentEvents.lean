import Mathlib.Data.List.DropRight
import Mathlib.Data.List.Induction
import ScalaLex.Log.Service

/-!
# The events that a memory keeps

`Service.recent` is what a service has let through of the events that it was handed since the memory
behind it was cleared last. The memory has the last of these, as many as there is room for
(`Memory.Holds`). Recording an event moves this window on by one (`Memory.Holds.record`), so an
event that does not get through moves nothing, and each command keeps what is held in step with what
was let through (`MemoryCommand.holds_run`). `MemoryCommand.events_runAll` says what is found in the
memory after any run.
-/

namespace ScalaLex

namespace Memory

variable {m : Memory} {given : List Event}

/-! ## The last elements of a list -/

section Window

variable {α : Type*} {l : List α} {n : ℕ}

/-- A list has that many last entries, or all it has. -/
theorem length_rtake (l : List α) (n : ℕ) : (l.rtake n).length = min n l.length := by
  rw [List.rtake, List.length_drop]
  omega

theorem rtake_of_length_le (h : l.length ≤ n) : l.rtake n = l := by
  rw [List.rtake, Nat.sub_eq_zero_of_le h, List.drop_zero]

/-- What was dropped from the front does not come back when an element is added at the end. -/
theorem rtake_rtake_concat (l : List α) (n : ℕ) (x : α) :
    (l.rtake n ++ [x]).rtake n = (l ++ [x]).rtake n := by
  cases n with
  | zero => rw [List.rtake_zero, List.rtake_zero]
  | succ n =>
    rw [List.rtake_concat_succ, List.rtake_concat_succ]
    simp [List.rtake_eq_reverse_take_reverse, List.take_take]

end Window

/-! ## What is held -/

/-- With one event more, the last ones of what was there are kept. -/
theorem events_record (h : m.events.length ≤ capacity) (e : Event) :
    (m.record e).events = (m.events ++ [e]).rtake capacity := by
  rw [Memory.record]
  split
  · rename_i hroom
    rw [rtake_of_length_le]
    rwa [List.length_append]
  · rename_i hfull
    have hlength : m.events.length = capacity := h.antisymm (Nat.not_lt.1 hfull)
    have hone : (m.events ++ [e]).length - capacity = 1 := by
      rw [List.length_append, hlength, List.length_singleton]
      omega
    rw [List.rtake, hone, List.drop_one, List.tail_append_of_ne_nil]
    exact List.ne_nil_of_length_pos (hlength ▸ (by decide : 0 < capacity))

/-- The memory has the last of the events, as many as there is room for. -/
def Holds (m : Memory) (given : List Event) : Prop := m.events = given.rtake capacity

theorem Holds.empty : Holds {} [] := (List.rtake_nil _).symm

theorem Holds.length_eq (h : m.Holds given) : m.events.length = min capacity given.length := by
  rw [h, length_rtake]

/-- Recording an event moves the window on by one. -/
theorem Holds.record (h : m.Holds given) (e : Event) : (m.record e).Holds (given ++ [e]) := by
  have hroom : m.events.length ≤ capacity := h.length_eq ▸ min_le_left _ _
  rw [Holds, events_record hroom, h, rtake_rtake_concat]

/-- An event that does not get through moves nothing. -/
theorem Holds.log (h : m.Holds given) (limit : Level) (e : Event) :
    (m.log limit e).Holds (given ++ [e].filter fun e => limit.allows e.level) := by
  rw [Memory.log, List.filter_cons, List.filter_nil]
  by_cases hlet : limit.allows e.level = true
  · rw [if_pos hlet, if_pos hlet]
    exact h.record e
  · rw [if_neg hlet, if_neg hlet, List.append_nil]
    exact h

end Memory

/-! ## What is let through -/

/-- The event that a command hands to the service. -/
def MemoryCommand.event? : MemoryCommand → Option Event
  | .log event => some event
  | .error code message time => some { Event.error code message with time }
  | .clear => none

/-- What the service lets through of the events it is handed after the last command to forget. -/
def Service.recent (s : Service) (cs : List MemoryCommand) : List Event :=
  ((cs.rtakeWhile (· ≠ .clear)).filterMap MemoryCommand.event?).filter fun e => s.allows e.level

namespace MemoryCommand

variable {s : Service} {m : Memory} {cs : List MemoryCommand} {c : MemoryCommand} {e : Event}

/-- An event that comes last is the most recent one, if it gets through. -/
theorem recent_concat (h : c.event? = some e) :
    s.recent (cs ++ [c]) = s.recent cs ++ [e].filter fun e => s.allows e.level := by
  have hkept : c ≠ .clear := by
    rintro rfl
    cases h
  rw [Service.recent, List.rtakeWhile_concat_pos _ _ _ (by simpa using hkept),
    List.filterMap_append, List.filter_append, List.filterMap_cons_some h, List.filterMap_nil,
    Service.recent]

/-- Behind a clear nothing is recent. -/
theorem recent_concat_clear : s.recent (cs ++ [.clear]) = [] := by
  rw [Service.recent, List.rtakeWhile_concat_neg _ _ _ (by simp)]
  rfl

/-- Each command keeps the memory in step with what was let through. -/
theorem holds_run (h : m.Holds (s.recent cs)) (c : MemoryCommand) :
    (run s m c).Holds (s.recent (cs ++ [c])) := by
  cases c with
  | log event =>
    rw [recent_concat rfl]
    exact h.log s.limit event
  | error code message time =>
    rw [recent_concat rfl]
    exact h.log s.limit { Event.error code message with time }
  | clear =>
    rw [recent_concat_clear]
    exact .empty

/-- After any commands the memory has the last of what was let through. -/
theorem holds_runAll (s : Service) (cs : List MemoryCommand) :
    (runAll s cs).Holds (s.recent cs) := by
  induction cs using List.reverseRecOn with
  | nil => exact .empty
  | append_singleton cs c ih =>
    rw [runAll, List.foldl_append]
    exact holds_run ih c

/-- After any commands to a service and the memory behind it, the memory has the last of the events
that the service has let through since it was cleared, all or as many as there is room for, in the
order in which they came. Their number, and those of them with a code, are what it gives. -/
theorem events_runAll (s : Service) (cs : List MemoryCommand) :
    let m := runAll s cs
    let kept := (s.recent cs).rtake Memory.capacity
    m.events = kept ∧ kept.length = min 256 (s.recent cs).length ∧ m.count = kept.length ∧
      ∀ code, m.withCode code = kept.filter (fun e => e.code = code) ∧
        (m.hasCode code = true ↔ ∃ e ∈ kept, e.code = code) := by
  intro m kept
  have hevents : m.events = kept := holds_runAll s cs
  refine ⟨hevents, Memory.length_rtake _ _, congrArg List.length hevents, fun code => ⟨?_, ?_⟩⟩
  · rw [Memory.withCode, hevents]
    rfl
  · rw [Memory.hasCode, hevents, List.any_eq_true]
    simp only [beq_iff_eq]

/-- What is filtered out takes no room, and the event after as many as there is room for drops the
first. -/
example :
    let s : Service := { sink := .discard, limit := .warning }
    let first (n : ℕ) := (runAll s ([.log (.warning "old"), .clear, .log (.warning "first"),
      .log (.info "quiet")] ++ List.replicate n (.log (.warning "later")))).events.head?
    (first 255).map (·.message) = some "first" ∧ (first 256).map (·.message) = some "later" := by
  decide +kernel

end MemoryCommand

end ScalaLex
