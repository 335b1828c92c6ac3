import ScalaLex.Log.FileContext
import ScalaLex.Log.Service

/-!
# The file an event belongs to

A block that runs with a file of its own may set and clear the current file as it likes, and may
hold further blocks. For the commands around it nothing has changed when it is over
(`inForce_append_within`). So which file is current at a command depends only on the innermost block
around it : on the file with which this block began and on the commands before it in the block
itself (`Step.found?`).

`stepsAll` lists the commands of a program with these, the ones of a block before the block, without
running anything. A run sees the files and gives out the events that the list says, in its order
(`scoped_runAll`).
-/

namespace ScalaLex.FileCommand

variable {current? start? : Option String}

/-! ## The file in force -/

/-- What a command makes the current file of the block that it stands in. -/
def effect? : FileCommand → Option (Option String)
  | .set file => some (some file)
  | .clear => some none
  | _ => none

/-- The file that is current behind commands of a block : what the last of them that has an effect
made it, or the file with which the block began. -/
def inForce (start? : Option String) (commands : List FileCommand) : Option String :=
  (commands.filterMap effect?).getLast?.getD start?

@[simp] theorem inForce_nil : inForce start? [] = start? := rfl

theorem inForce_append (before after : List FileCommand) :
    inForce start? (before ++ after) = inForce (inForce start? before) after := by
  simp [inForce, List.getLast?_append, Option.getD_or]

/-- A block leaves the current file as it was. -/
theorem inForce_append_within (before : List FileCommand) (file : String)
    (block : List FileCommand) :
    inForce start? (before ++ [.within file block]) = inForce start? before := by
  rw [inForce_append]
  rfl

/-! ## Commands in their places -/

/-- A command of a program, with what stands before it in the innermost block around it. -/
structure Step where
  /-- The current file at the start of the block. -/
  start? : Option String
  /-- The commands before it that stand in the block itself. -/
  before : List FileCommand
  command : FileCommand

namespace Step

/-- The current file before the command. -/
def found? (s : Step) : Option String := inForce s.start? s.before

/-- The current file after the command. -/
def left? (s : Step) : Option String := inForce s.start? (s.before ++ [s.command])

/-- The event that the command gives out. It keeps its own file if no file is current. -/
def event? (s : Step) : Option Event :=
  match s.command with
  | .emit event => some { event with file? := s.found?.or event.file? }
  | _ => none

end Step

mutual

/-- The commands of a command, itself the last. -/
def steps (start? : Option String) (before : List FileCommand) : FileCommand → List Step
  | .within file block => stepsAll (some file) [] block ++ [⟨start?, before, .within file block⟩]
  | c => [⟨start?, before, c⟩]

/-- The commands of the rest of a block. -/
def stepsAll (start? : Option String) (before : List FileCommand) :
    List FileCommand → List Step
  | [] => []
  | c :: cs => steps start? before c ++ stepsAll start? (before ++ [c]) cs

end

/-! ## Runs -/

/-- One command leaves the file that it puts in force. -/
theorem run_current? (c : FileCommand) : (run current? c).current? = inForce current? [c] := by
  cases c <;> rfl

theorem runAll_current? (cs : List FileCommand) :
    (runAll start? cs).current? = inForce start? cs := by
  induction cs generalizing start? with
  | nil => rfl
  | cons c cs ih => rw [runAll, ih, run_current?, ← inForce_append, List.singleton_append]

/-- A command that runs where it stands leaves what its place says. -/
theorem Step.left?_eq (s : Step) : s.left? = (run s.found? s.command).current? := by
  rw [left?, inForce_append, run_current?, found?]

theorem located_mk (event : Event) :
    Entry.located ⟨current?, event⟩ = { event with file? := current?.or event.file? } := by
  cases current? <;> rfl

/-- What an outcome shows is what a list of commands in their places says. -/
structure Shows (outcome : FileOutcome) (steps : List Step) : Prop where
  seen : outcome.seen = steps.map Step.left?
  events : outcome.entries.map Entry.located = steps.filterMap Step.event?

mutual

/-- One command shows what its list says, wherever it stands in its block. -/
theorem shows_run (start? : Option String) (before : List FileCommand) :
    ∀ c : FileCommand, Shows (run (inForce start? before) c) (steps start? before c)
  | .set _ => ⟨by simp [run, steps, Step.left?_eq], rfl⟩
  | .clear => ⟨by simp [run, steps, Step.left?_eq], rfl⟩
  | .look => ⟨by simp [run, steps, Step.left?_eq, Step.found?], rfl⟩
  | .emit event =>
    ⟨by simp [run, steps, Step.left?_eq, Step.found?],
      by simp [run, steps, Step.event?, Step.found?, located_mk]⟩
  | .within file block => by
    -- The block starts with its own file, whatever was in force in front of it.
    obtain ⟨hseen, hevents⟩ := shows_runAll (some file) [] block
    rw [inForce_nil] at hseen hevents
    constructor
    · simp [run, steps, hseen, Step.left?_eq, Step.found?]
    · simp [run, steps, hevents, Step.event?]

theorem shows_runAll (start? : Option String) (before : List FileCommand) :
    ∀ cs : List FileCommand, Shows (runAll (inForce start? before) cs) (stepsAll start? before cs)
  | [] => ⟨rfl, rfl⟩
  | c :: cs => by
    obtain ⟨hseen, hevents⟩ := shows_run start? before c
    obtain ⟨hseenRest, heventsRest⟩ := shows_runAll start? (before ++ [c]) cs
    rw [inForce_append, ← run_current?] at hseenRest heventsRest
    constructor
    · simp [runAll, stepsAll, hseen, hseenRest]
    · simp [runAll, stepsAll, hevents, heventsRest]

end

/-- A program leaves the file that its own commands put in force, and a block at its end changes
nothing. Every command at any depth leaves the file that its place in the innermost block around it
says. Through a service that marks events with files go the events whose level gets through, each
with the file in force where it was given out. -/
theorem scoped_runAll (sink : Sink) (limit : Level) (start? : Option String)
    (program : List FileCommand) :
    (runAll start? program).current? = inForce start? program ∧
    (∀ file block, (runAll start? (program ++ [.within file block])).current? =
      (runAll start? program).current?) ∧
    (runAll start? program).seen = (stepsAll start? [] program).map Step.left? ∧
    (⟨sink, limit, true⟩ : Service).accepted (runAll start? program).entries =
      ((stepsAll start? [] program).filterMap Step.event?).filter
        fun e => limit.allows e.level := by
  obtain ⟨hseen, hevents⟩ := shows_runAll start? [] program
  rw [inForce_nil] at hseen hevents
  refine ⟨runAll_current? program, fun file block => ?_, hseen, ?_⟩
  · rw [runAll_current?, runAll_current?, inForce_append_within]
  · rw [← hevents]
    rfl

/-- A file that was found under another name, and in its course the scan. -/
example :
    (runAll none [.within "A.scala" [.look, .within "/a/A.scala" [.look, .clear], .look]]).seen =
      [some "A.scala", some "/a/A.scala", none, some "A.scala", some "A.scala", none] := by
  decide

end ScalaLex.FileCommand
