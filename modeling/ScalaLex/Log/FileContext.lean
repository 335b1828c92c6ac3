import ScalaLex.Log.Logged

/-!
# The current file of a log

While a program logs, one file can be the current one. It can be set and cleared, and a
block can be run with a file of its own, after which the file from before the block is
current again, whatever the block did. Each event belongs to the file that is current when
it is given out.
-/

namespace ScalaLex

/-- Something a program does with the current file. -/
inductive FileCommand where
  | set (file : String)
  | clear
  /-- Look at the current file. -/
  | look
  /-- Run a block with a current file of its own. -/
  | within (file : String) (block : List FileCommand)
  /-- Give out an event. -/
  | emit (event : Event)
deriving Repr, Inhabited

/-- How commands turn out : the current file after them, the current file after each of
them in turn with the commands of a block before the block, and the events. -/
structure FileOutcome where
  current? : Option String
  seen : List (Option String) := []
  entries : List Entry := []
deriving Repr, DecidableEq, Inhabited

namespace FileCommand

mutual

/-- Run one command while a file is current. -/
def run (current? : Option String) : FileCommand → FileOutcome
  | .set file => ⟨some file, [some file], []⟩
  | .clear => ⟨none, [none], []⟩
  | .look => ⟨current?, [current?], []⟩
  | .within file block =>
    let inner := runAll (some file) block
    ⟨current?, inner.seen ++ [current?], inner.entries⟩
  | .emit event => ⟨current?, [current?], [⟨current?, event⟩]⟩

/-- Run commands in order. -/
def runAll (current? : Option String) : List FileCommand → FileOutcome
  | [] => ⟨current?, [], []⟩
  | c :: cs =>
    let first := run current? c
    let rest := runAll first.current? cs
    ⟨rest.current?, first.seen ++ rest.seen, first.entries ++ rest.entries⟩

end

end FileCommand

end ScalaLex
