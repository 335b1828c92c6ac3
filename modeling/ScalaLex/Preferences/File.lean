import ScalaLex.Preferences.Environment
import ScalaLex.Toml.Parser
import ScalaLex.Toml.Printer
import ScalaLex.Tree.Lookup
import ScalaLex.Log.Code
import ScalaLex.Text.Utf8

/-!
# Preference files

A preference file is a TOML document with a section for each group of preferences. What a
file leaves out keeps the value of the environment, and what it has beyond the known keys
is passed over. A group can also be given as a list of its values in order, or by a date
or time, which changes nothing, and a level as a table with one empty entry. A thread
count is brought within its bounds.

`Preferences.write` writes every preference, in the order in which they are declared.
`Preferences.toText` does so unless a thread count is beyond the integers of TOML.
-/

namespace ScalaLex

/-- Why preferences were not read. -/
inductive ConfigError where
  | unreadable (path message : String)
  | malformed (message : String)
deriving Repr, DecidableEq, Inhabited

namespace ConfigError

/-- The error for people. -/
def message : ConfigError → String
  | unreadable path message =>
    "Failed to read configuration file '" ++ path ++ "': " ++ message
  | malformed message => "Invalid configuration: " ++ message

/-- The code under which the error is told. -/
def code (_ : ConfigError) : Code := .configurationError

end ConfigError

namespace Preferences

open Toml (Value lookup?)

/-- The values that a section gives for keys : by name in a table, by place in a list. A
date or time is a section that gives none. -/
def given? (keys : List String) : Value → Option (List (Option Value))
  | .table entries => some (keys.map (lookup? entries))
  | .array items => some ((List.range keys.length).map fun i => items[i]?)
  | .datetime _ => some (keys.map fun _ => none)
  | _ => none

/-- A value that is given is read, a missing one keeps its default. -/
def field {α : Type} (read : Value → Option α) (default : α) : Option Value → Option α
  | some v => read v
  | none => some default

/-- A switch is a truth value. -/
def readBoolean : Value → Option Bool
  | .boolean b => some b
  | _ => none

/-- A count is an integer that is not negative. -/
def readCount : Value → Option Nat
  | .integer (.ofNat n) => some n
  | _ => none

/-- A text is a string. -/
def readText : Value → Option String
  | .string text => some text
  | _ => none

/-- A list of texts. -/
def readTexts : Value → Option (List String)
  | .array items => items.mapM readText
  | _ => none

/-- A level is its word, or the one key of a table with nothing under it. -/
def readLevel : Value → Option Level
  | .string word => Level.ofWord? word
  | .table [(word, .table [])] => Level.ofWord? word
  | .table [(word, .array [])] => Level.ofWord? word
  | _ => none

/-- A group of preferences from its section, if there is one. -/
def section? {α : Type} (keys : List String) (build : List (Option Value) → Option α)
    (default : α) : Option Value → Option α
  | none => some default
  | some v => (given? keys v).bind build

/-- The keys of the scanner preferences, in order. -/
def scanKeys : List String :=
  ["collect_detailed_metrics", "track_operator_patterns", "warn_on_unterminated"]

/-- The keys of the file preferences, in order. -/
def fileKeys : List String := ["require_scala_extension", "enable_performance_logging"]

/-- The keys of the directory preferences, in order. -/
def batchKeys : List String := ["max_threads", "recursive", "extensions", "fail_fast"]

/-- The keys of the log preferences, in order. -/
def logKeys : List String :=
  ["use_structured_logging", "enable_console_logging", "min_log_level", "include_file_context"]

/-- Scanner preferences from the values of their keys. -/
def readScan (d : ScanPreferences) : List (Option Value) → Option ScanPreferences
  | [a, b, c] => do
    return ⟨← field readBoolean d.collectDetails a, ← field readBoolean d.trackOperators b,
      ← field readBoolean d.warnUnterminated c⟩
  | _ => none

/-- File preferences from the values of their keys. -/
def readFiles (d : FilePreferences) : List (Option Value) → Option FilePreferences
  | [a, b] => do
    return ⟨← field readBoolean d.requireExtension a, ← field readBoolean d.logPerformance b⟩
  | _ => none

/-- Directory preferences from the values of their keys. -/
def readBatch (d : BatchPreferences) : List (Option Value) → Option BatchPreferences
  | [a, b, c, e] => do
    return ⟨clampThreads (← field readCount d.maxThreads a), ← field readBoolean d.recursive b,
      ← field readTexts d.extensions c, ← field readBoolean d.failFast e⟩
  | _ => none

/-- Log preferences from the values of their keys. -/
def readLog (d : LogPreferences) : List (Option Value) → Option LogPreferences
  | [a, b, c, e] => do
    return ⟨← field readBoolean d.structured a, ← field readBoolean d.console b,
      ← field readLevel d.minLevel c, ← field readBoolean d.includeFile e⟩
  | _ => none

/-- The preferences of a document, over those of the environment. -/
def ofEntries? (env : Environment) (entries : List (String × Value)) : Option Preferences := do
  return {
    scan := ← section? scanKeys (readScan (scanOf env)) (scanOf env) (lookup? entries "lexical")
    files := ← section? fileKeys (readFiles (filesOf env)) (filesOf env)
      (lookup? entries "file_processor")
    batch := ← section? batchKeys (readBatch (batchOf env)) (batchOf env) (lookup? entries "batch")
    log := ← section? logKeys (readLog (logOf env)) (logOf env) (lookup? entries "logging") }

/-- The preferences of a text. -/
def parse (env : Environment) (text : String) : Except ConfigError Preferences :=
  match Toml.parse? text with
  | none => .error (.malformed "not a TOML document")
  | some entries =>
    match ofEntries? env entries with
    | some p => .ok p
    | none => .error (.malformed "a preference has a value of the wrong kind")

/-- What is told of a file that is no text. -/
def notText : String := "stream did not contain valid UTF-8"

/-- The preferences of a file. -/
def load (env : Environment) (t : FileTree) (path : String) : Except ConfigError Preferences :=
  match t.read path with
  | .error e => .error (.unreadable path e.message)
  | .ok content =>
    match Utf8.decode? content.toList with
    | none => .error (.unreadable path notText)
    | some text => parse env text

/-- The sections that hold the preferences. -/
def sections (p : Preferences) : List Toml.Section := [
  ⟨"lexical", [("collect_detailed_metrics", .boolean p.scan.collectDetails),
    ("track_operator_patterns", .boolean p.scan.trackOperators),
    ("warn_on_unterminated", .boolean p.scan.warnUnterminated)]⟩,
  ⟨"file_processor", [("require_scala_extension", .boolean p.files.requireExtension),
    ("enable_performance_logging", .boolean p.files.logPerformance)]⟩,
  ⟨"batch", [("max_threads", .count p.batch.maxThreads), ("recursive", .boolean p.batch.recursive),
    ("extensions", .texts p.batch.extensions), ("fail_fast", .boolean p.batch.failFast)]⟩,
  ⟨"logging", [("use_structured_logging", .boolean p.log.structured),
    ("enable_console_logging", .boolean p.log.console),
    ("min_log_level", .text p.log.minLevel.word),
    ("include_file_context", .boolean p.log.includeFile)]⟩]

/-- The preferences as a TOML text. -/
def write (p : Preferences) : String := String.ofList (Toml.writeSections p.sections)

/-- What is told of a count that TOML has no integer for. -/
def outOfRange : String := "out-of-range value for u64 type"

/-- The preferences as a TOML text, if they have one. -/
def toText (p : Preferences) : Except ConfigError String :=
  if p.sections.all Toml.Section.isWritable then .ok p.write else .error (.malformed outOfRange)

end Preferences

end ScalaLex
