import ScalaLex.Log.Level

/-!
# Preferences

What a user can choose, in four groups. Each group starts from what the environment says
(`ScalaLex.Preferences.Environment`) and can be given in a file
(`ScalaLex.Preferences.File`).
-/

namespace ScalaLex

/-- Preferences of the scanner. -/
structure ScanPreferences where
  /-- Count comments and quoted literals. -/
  collectDetails : Bool := true
  /-- Count how often each operator is used. -/
  trackOperators : Bool := false
  /-- Warn when the input ends inside a comment or a quoted literal. -/
  warnUnterminated : Bool := true
deriving Repr, DecidableEq, Inhabited

/-- Preferences for reading source files. -/
structure FilePreferences where
  /-- Refuse files without the extension of Scala sources. -/
  requireExtension : Bool := false
  /-- Tell how long reading took. -/
  logPerformance : Bool := true
deriving Repr, DecidableEq, Inhabited

/-- Preferences for directories. -/
structure BatchPreferences where
  maxThreads : Nat := 4
  /-- Go into subdirectories. -/
  recursive : Bool := true
  /-- The extensions of the files looked for, without the dot. -/
  extensions : List String := ["scala"]
  /-- Take up no further file after a failure. -/
  failFast : Bool := false
deriving Repr, DecidableEq, Inhabited

/-- Preferences for the log. -/
structure LogPreferences where
  /-- Write events as JSON. -/
  structured : Bool := false
  /-- Write events at all. -/
  console : Bool := true
  minLevel : Level := .warning
  /-- Mark events with the current file. -/
  includeFile : Bool := true
deriving Repr, DecidableEq, Inhabited

/-- All preferences. -/
structure Preferences where
  scan : ScanPreferences := {}
  files : FilePreferences := {}
  batch : BatchPreferences := {}
  log : LogPreferences := {}
deriving Repr, DecidableEq, Inhabited

/-- The most workers that a directory is given. -/
def maxWorkers : Nat := 8

/-- A thread count within the bounds. -/
def clampThreads (n : Nat) : Nat := max 1 (min n maxWorkers)

theorem clampThreads_pos (n : Nat) : 1 ≤ clampThreads n := Nat.le_max_left _ _

theorem clampThreads_le (n : Nat) : clampThreads n ≤ maxWorkers :=
  Nat.max_le.2 ⟨by decide, Nat.min_le_right _ _⟩

end ScalaLex
