import ScalaLex.Decimal.Natural
import ScalaLex.Preferences.Basic

/-!
# Preferences from the environment

An environment variable can replace the built-in default of a preference. A value that
does not read as one is passed over.
-/

namespace ScalaLex

/-- Environment variables and their values. -/
abbrev Environment := List (String × String)

namespace Environment

/-- The value of a variable. -/
def get? (env : Environment) (name : String) : Option String :=
  (env.find? (·.1 == name)).map (·.2)

/-- What all variable names start with. -/
def namespaceText : String := "SCALA_TOKENIZER_"

/-- The value of one of this program's variables. -/
def setting? (env : Environment) (name : String) : Option String := env.get? (namespaceText ++ name)

/-- The names of this program's variables, less what they start with. -/
def settings : List String :=
  ["LEXICAL_DETAILED_METRICS", "LEXICAL_TRACK_OPERATORS", "LEXICAL_WARN_UNTERMINATED",
    "REQUIRE_SCALA_EXTENSION", "ENABLE_PERFORMANCE_LOGGING", "BATCH_MAX_THREADS",
    "BATCH_RECURSIVE", "BATCH_EXTENSIONS", "BATCH_FAIL_FAST", "LOGGING_USE_STRUCTURED",
    "LOGGING_ENABLE_CONSOLE", "LOGGING_MIN_LEVEL", "LOGGING_INCLUDE_FILE_CONTEXT"]

/-- A switch is the word for true or for false, with blanks around it. -/
def readSwitch? (value : String) : Option Bool :=
  match Text.trim value with
  | "true" => some true
  | "false" => some false
  | _ => none

/-- A switch that a variable sets. -/
def switch (env : Environment) (name : String) (default : Bool) : Bool :=
  ((env.setting? name).bind readSwitch?).getD default

/-- A count that a variable sets. -/
def count (env : Environment) (name : String) (default : Nat) : Nat :=
  ((env.setting? name).bind fun v => Natural.read? (Text.trim v)).getD default

/-- The characters between commas. -/
def splitCommas : List Char → List (List Char)
  | [] => [[]]
  | c :: rest =>
    if c = ',' then [] :: splitCommas rest
    else match splitCommas rest with
      | [] => [[c]]
      | piece :: pieces => (c :: piece) :: pieces

/-- The extensions of a list with commas : blanks around an extension and dots in front of
it are taken off, and empty ones are dropped. -/
def readExtensions (value : String) : List String :=
  ((splitCommas value.toList).map fun piece =>
    (Text.trimChars piece).dropWhile (· == '.')).filterMap fun extension =>
      if extension.isEmpty then none else some (String.ofList extension)

/-- The extensions that a variable sets, if it names any. -/
def extensions (env : Environment) (name : String) (default : List String) : List String :=
  match (env.setting? name).map readExtensions with
  | some (e :: es) => e :: es
  | _ => default

/-- The level that a variable sets. -/
def level (env : Environment) (name : String) (default : Level) : Level :=
  ((env.setting? name).bind Level.read?).getD default

end Environment

namespace Preferences

/-- Scanner preferences of an environment. -/
def scanOf (env : Environment) : ScanPreferences where
  collectDetails := env.switch "LEXICAL_DETAILED_METRICS" true
  trackOperators := env.switch "LEXICAL_TRACK_OPERATORS" false
  warnUnterminated := env.switch "LEXICAL_WARN_UNTERMINATED" true

/-- File preferences of an environment. -/
def filesOf (env : Environment) : FilePreferences where
  requireExtension := env.switch "REQUIRE_SCALA_EXTENSION" false
  logPerformance := env.switch "ENABLE_PERFORMANCE_LOGGING" true

/-- Directory preferences of an environment. -/
def batchOf (env : Environment) : BatchPreferences where
  maxThreads := clampThreads (env.count "BATCH_MAX_THREADS" 4)
  recursive := env.switch "BATCH_RECURSIVE" true
  extensions := env.extensions "BATCH_EXTENSIONS" ["scala"]
  failFast := env.switch "BATCH_FAIL_FAST" false

/-- Log preferences of an environment. -/
def logOf (env : Environment) : LogPreferences where
  structured := env.switch "LOGGING_USE_STRUCTURED" false
  console := env.switch "LOGGING_ENABLE_CONSOLE" true
  minLevel := env.level "LOGGING_MIN_LEVEL" .warning
  includeFile := env.switch "LOGGING_INCLUDE_FILE_CONTEXT" true

/-- All preferences of an environment. -/
def ofEnvironment (env : Environment) : Preferences where
  scan := scanOf env
  files := filesOf env
  batch := batchOf env
  log := logOf env

end Preferences

end ScalaLex
