import ScalaLex.Decimal.Natural
import ScalaLex.Preferences.Basic

/-!
# Command-line options

The options that follow the path on a command line. They are read in order, and a later
one wins over an earlier one. An argument that is no option is warned of and passed over.
-/

namespace ScalaLex

/-- The options of a command line. -/
structure Options where
  json : Bool := false
  pretty : Bool := false
  counts : Bool := false
  recursive? : Option Bool := none
  threads? : Option Nat := none
  failFast : Bool := false
  configFile? : Option String := none
  logJson : Bool := false
  logLevel? : Option Level := none
  quiet : Bool := false
deriving Repr, DecidableEq, Inhabited

/-- Why options were not read. -/
inductive OptionError where
  | threadsMissing
  | threadsInvalid (value : String)
  | configMissing
  | levelMissing
  | levelUnknown (value : String)
deriving Repr, DecidableEq, Inhabited

/-- The error for people. -/
def OptionError.message : OptionError → String
  | threadsMissing => "--threads requires a number"
  | threadsInvalid value => "Invalid thread count '" ++ value ++ "'"
  | configMissing => "--config requires a file path"
  | levelMissing => "--log-level requires a level"
  | levelUnknown value => "Unknown log level '" ++ value ++ "'"

namespace Options

/-- The options after a switch, or `none` if the argument is no switch. -/
def switch? (o : Options) : String → Option Options
  | "--json" => some { o with json := true }
  | "--pretty" => some { o with pretty := true }
  | "--counts" => some { o with counts := true }
  | "--recursive" => some { o with recursive? := some true }
  | "--no-recursive" => some { o with recursive? := some false }
  | "--fail-fast" => some { o with failFast := true }
  | "--log-json" => some { o with logJson := true }
  | "--quiet" => some { o with quiet := true }
  | _ => none

/-- The options with a thread count. -/
def withThreads (o : Options) (value : String) : Except OptionError Options :=
  match Natural.read? value with
  | some n => .ok { o with threads? := some n }
  | none => .error (.threadsInvalid value)

/-- The options with a log level, given by one of its names. -/
def withLevel (o : Options) (value : String) : Except OptionError Options :=
  match Level.read? value with
  | some l => .ok { o with logLevel? := some l }
  | none => .error (.levelUnknown value)

/-- Read arguments onto options. The arguments that were passed over come with the result,
in order, also where reading fails after them. -/
def parseOnto (o : Options) : List String → List String × Except OptionError Options
  | [] => ([], .ok o)
  | "--threads" :: rest =>
    match rest with
    | [] => ([], .error .threadsMissing)
    | value :: rest =>
      match o.withThreads value with
      | .ok o => parseOnto o rest
      | .error e => ([], .error e)
  | "--config" :: rest =>
    match rest with
    | [] => ([], .error .configMissing)
    | value :: rest => parseOnto { o with configFile? := some value } rest
  | "--log-level" :: rest =>
    match rest with
    | [] => ([], .error .levelMissing)
    | value :: rest =>
      match o.withLevel value with
      | .ok o => parseOnto o rest
      | .error e => ([], .error e)
  | arg :: rest =>
    match o.switch? arg with
    | some o => parseOnto o rest
    | none =>
      let (unknown, result) := parseOnto o rest
      (arg :: unknown, result)

/-- The options of arguments, with the arguments that were passed over. -/
def parse (args : List String) : List String × Except OptionError Options := parseOnto {} args

/-- The warning for an argument that was passed over. -/
def unknownWarning (arg : String) : String := "Warning: Unknown option '" ++ arg ++ "'"

/-- The preferences with what the options choose. -/
def applyTo (o : Options) (p : Preferences) : Preferences :=
  { p with
    batch :=
      { p.batch with
        recursive := o.recursive?.getD p.batch.recursive
        maxThreads := o.threads?.getD p.batch.maxThreads
        failFast := o.failFast || p.batch.failFast }
    log :=
      { p.log with
        structured := o.logJson || p.log.structured
        minLevel := if o.quiet then .error else o.logLevel?.getD p.log.minLevel } }

end Options

end ScalaLex
