import ScalaLex.CommandLine.Options
import ScalaLex.Log.Start
import ScalaLex.Preferences.File
import ScalaLex.Report

/-!
# The command line

`CommandLine.run` is the whole program as a function : from its arguments, its environment,
the files, and what the clock shows, to its exit status and what it writes. The first
argument is a path, the others are options. Tokens go to the output; the log, errors and
the failures of a directory go to the error output.

The status is 2 if the program does not get as far as its input, 1 if the input or one of
its files is not tokenized, and 0 otherwise.
-/

namespace ScalaLex

/-- What a program is started with. -/
structure Invocation where
  program : String
  args : List String
  environment : Environment := []
  tree : FileTree := {}
  now : Instant := { seconds := 0 }
  timing : Timing := {}

/-- How a program ends : its status, and the texts that it writes. -/
structure Outcome where
  status : Nat := 0
  out : String := ""
  err : String := ""
deriving Repr, DecidableEq, Inhabited

namespace CommandLine

/-- Lines, each with its end. -/
def unlines (lines : List String) : String := String.join (lines.map (· ++ "\n"))

/-- The lines that tell how the program is used. -/
def usage (program : String) : List String :=
  ["Usage: " ++ program ++ " <file.scala|directory> [options]",
    "       " ++ program ++ " --help"]

/-- The lines of the help text. -/
def help (program : String) : List String :=
  ["Scala Tokenizer v" ++ toolVersion,
    "Line-numbered token streams for Scala source",
    "",
    "USAGE:",
    "    " ++ program ++ " <file.scala>               # Tokenize one file",
    "    " ++ program ++ " <directory> [options]      # Tokenize a directory",
    "",
    "OPTIONS:",
    "    --help              Show this help message",
    "    --json              Emit a JSON token report",
    "    --pretty            Pretty-print JSON output",
    "    --counts            Print per-kind token counts only",
    "    --recursive         Search subdirectories (default)",
    "    --no-recursive      Don't search subdirectories",
    "    --threads N         Worker threads for directories",
    "    --fail-fast         Stop scheduling files after the first failure",
    "    --config FILE       Load preferences from a TOML file",
    "    --log-json          Emit log events as JSON lines",
    "    --log-level LEVEL   error, warning, info or debug",
    "    --quiet             Only log errors",
    "",
    "TEXT OUTPUT:",
    "    One token per line: <line>: <KIND> <value>",
    "",
    "EXAMPLES:",
    "    " ++ program ++ " Main.scala",
    "    " ++ program ++ " src/ --json --pretty",
    "    " ++ program ++ " src/ --threads 4 --counts"]

/-- An error under its code. -/
def errorLine (code : Code) (message : String) : String :=
  "Error [" ++ code.text ++ "]: " ++ message

/-- What is written about an input : a status, output lines, and error lines that follow
the log. -/
structure Answer where
  status : Nat := 0
  out : String := ""
  err : List String := []
deriving Repr, DecidableEq, Inhabited

/-- The text for one file that was read from `path`. -/
def fileText (o : Options) (now : Instant) (path : String) (file : SourceFile) (scan : Scan) :
    String :=
  if o.json then (Report.ofFile now file.path file.lineCount scan.tokens).text o.pretty ++ "\n"
  else if o.counts then Counts.text path scan.counts ++ "\n"
  else Token.listing scan.tokens

/-- Tokenize a file. -/
def runFile (i : Invocation) (p : Preferences) (o : Options) (path : String) : Logged Answer := do
  match ← SourceFile.load p.files i.tree i.timing.read path with
  | .error e => return { status := 1, err := [errorLine e.code e.message] }
  | .ok file =>
    let s ← ({ preferences := p.scan } : Scanner).parseFile i.timing.scan file
    return { out := fileText o i.now path file s.last }

/-- The text for the files of a directory. -/
def batchText (o : Options) (now : Instant) (r : BatchResults) : String :=
  if o.json then (Report.ofBatch now r).text o.pretty ++ "\n"
  else if o.counts then
    unlines ((r.files.map fun f => Counts.text f.path f.scan.counts) ++
      [Counts.text "total" r.counts])
  else
    String.join (r.files.map fun f => "== " ++ f.path ++ " ==\n" ++ Token.listing f.scan.tokens)

/-- The line for a file that was not read. -/
def failureLine (f : FileFailure) : String :=
  "  " ++ f.path ++ " [" ++ f.error.code.text ++ "]: " ++ f.error.message

/-- The lines for the files that were not read, if there are any. -/
def failureLines (r : BatchResults) : List String :=
  if r.failures.isEmpty then []
  else ["", "Failed Files:"] ++ r.failures.map failureLine ++ [r.summary]

/-- What is written about the files of a directory. -/
def batchAnswer (o : Options) (now : Instant) (r : BatchResults) : Answer where
  status := if r.failures.isEmpty then 0 else 1
  out := batchText o now r
  err := failureLines r

/-- The batch that preferences ask for. -/
def batchOf (p : Preferences) : Batch := ⟨p.batch.clamped, p.files, p.scan⟩

/-- Tokenize the files of a directory. -/
def runDirectory (i : Invocation) (p : Preferences) (o : Options) (path : String) :
    Logged Answer := do
  match ← (batchOf p).run i.tree i.timing path with
  | .error e => return { status := 1, err := [errorLine e.code e.message] }
  | .ok r => return batchAnswer o i.now r

/-- Tokenize what a path leads to. -/
def runInput (i : Invocation) (p : Preferences) (o : Options) (path : String) : Logged Answer :=
  if i.tree.isFile path then runFile i p o path
  else if i.tree.isDirectory path then runDirectory i p o path
  else pure
    { status := 1, err := ["Error: Input must be a file or directory", "  Path: " ++ path] }

/-- The preferences that options and environment choose. -/
def preferences (i : Invocation) (o : Options) : Except ConfigError Preferences :=
  match o.configFile? with
  | some path => Preferences.load i.environment i.tree path
  | none => .ok (Preferences.ofEnvironment i.environment)

/-- Start the log and tokenize what a path leads to. The log is written before the error
lines. -/
def runWith (i : Invocation) (p : Preferences) (o : Options) (path : String) : Outcome :=
  let started : Logged (Except StartError Service) := do
    match ← Service.start none p.log with
    | .error e => return .error e
    | .ok service =>
      match ← Service.startScanning with
      | .error e => return .error e
      | .ok () => return .ok service
  match started.value with
  | .error e => { status := 2, err := unlines [errorLine .initializationFailure e.message] }
  | .ok service =>
    let answer := runInput i p o path
    let log := service.lines i.now (started.entries ++ answer.entries)
    { status := answer.value.status
      out := answer.value.out
      err := unlines (log ++ answer.value.err) }

/-- Read the options and go on with the path. -/
def runPath (i : Invocation) (path : String) (args : List String) : Outcome :=
  let (unknown, parsed) := Options.parse args
  let warnings := unknown.map Options.unknownWarning
  match parsed with
  | .error e => { status := 2, err := unlines (warnings ++ ["Error: " ++ e.message]) }
  | .ok o =>
    match preferences i o with
    | .error e => { status := 2, err := unlines (warnings ++ [errorLine e.code e.message]) }
    | .ok p =>
      let outcome := runWith i (o.applyTo p) o path
      { outcome with err := unlines warnings ++ outcome.err }

/-- The program. -/
def run (i : Invocation) : Outcome :=
  match i.args with
  | [] => { status := 1, err := unlines (usage i.program) }
  | path :: args =>
    if path == "--help" then { out := unlines (help i.program) } else runPath i path args

end CommandLine

end ScalaLex
