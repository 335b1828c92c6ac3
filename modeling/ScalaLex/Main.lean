import ScalaLex.CommandLine.Run
import Std.Time.DateTime.Timestamp

/-!
# The executable

The program itself is a function (`ScalaLex.CommandLine.run`). What is left to do here is to
gather what it depends on and to write what it gives. Of the files only those are gathered
that the paths on the command line lead to, and a file that is too large to be read is
taken by its size alone.
-/

namespace ScalaLex.Main

/-- The names of an absolute path. -/
def namesOf (path : String) : List String := (Path.names path).filter fun n => !Path.isHere n

/-- The node as found at names, where nothing has been gathered yet. -/
def add (t : FileTree) (names : List String) (node : Node) : FileTree :=
  let isThere := match t.node? (Path.absolute names) with
    | .ok old => !(old.isDirectory && old.entries.isEmpty)
    | .error _ => false
  if isThere then t
  else if h : node.isOrdered = true then t.put names node h
  else t

/-- What the operating system tells where a directory cannot be listed. -/
def refusalOf : IO.Error → String
  | .permissionDenied .. => "Permission denied (os error 13)"
  | e => toString e

/-- What a file holds, if that can be found out. -/
def contentOf (path : String) (size : Nat) : IO Node := do
  if FileSize.limit < size then return .file (.zeros size)
  return .file (.bytes (← IO.FS.readBinFile path).toList)

/-- Where the links at an absolute path lead. A link that leads nowhere is taken to lead to
itself if there is anything at its end. -/
def realNames? (path : String) : IO (Option (List String)) := do
  try return some (namesOf (← IO.FS.realPath path).toString)
  catch _ => return none

/-- Gather what lies at names from the root. -/
partial def gather (t : FileTree) (names : List String) : IO FileTree := do
  let path := Path.absolute names
  try
    let here := (← IO.currentDir) / path
    let found ← here.symlinkMetadata
    match found.type with
    | .file => return add t names (← contentOf path found.byteSize.toNat)
    | .dir =>
      let t := add t names (.directory [])
      match ← here.readDir.toBaseIO with
      | .ok entries => entries.foldlM (fun t entry => gather t (names ++ [entry.fileName])) t
      | .error e => return { t with refusals := (names, refusalOf e) :: t.refusals }
    | .symlink =>
      match ← realNames? path with
      | some target =>
        let t := add t names (.link (Path.absolute target))
        if (← ((← IO.currentDir) / Path.absolute target).isDir) then return t
        else gather t target
      | none => return add t names (.link (Path.absolute (names ++ ["missing"])))
    | .other => return t
  catch _ => return t

/-- Gather the links and directories on the way of a path, and what it leads to. -/
partial def follow (t : FileTree) (here : List String) : List String → IO FileTree
  | [] => gather t here
  | name :: rest => do
    if Path.isHere name then follow t here rest
    else if name == ".." then follow t here.dropLast rest
    else
      let next := here ++ [name]
      match ← realNames? (Path.absolute next) with
      | some target =>
        if target == next then follow t next rest
        else follow (add t next (.link (Path.absolute target))) target rest
      | none => gather t next

/-- The tree of the files that paths lead to. -/
def treeOf (paths : List String) : IO FileTree := do
  let workingDirectory := namesOf (← IO.currentDir).toString
  let start : FileTree := { workingDirectory }
  let start := add start workingDirectory (.directory [])
  paths.foldlM (fun t path =>
    follow t (if Path.isAbsolute path then [] else workingDirectory) (Path.names path)) start

/-- The variables that the program looks at. -/
def environment : IO Environment := do
  Environment.settings.filterMapM fun setting => do
    let name := Environment.namespaceText ++ setting
    return (← IO.getEnv name).map fun value => (name, value)

/-- The paths that a command line names. -/
def pathsOf : List String → List String
  | [] => []
  | path :: args =>
    match (Options.parse args).2 with
    | .ok o => path :: o.configFile?.toList
    | .error _ => []

/-- The moment that the clock shows. -/
def now : IO Instant := do
  let nanos := (← Std.Time.Timestamp.now).toNanosecondsSinceUnixEpoch.val
  return ⟨nanos.fdiv 1000000000, (nanos.fmod 1000000000).toNat⟩

/-- The invocation with what the clock shows on its way. The program is a function of
that as well, so it is run once to be timed. -/
def timed (args : List String) : IO Invocation := do
  let started ← IO.monoNanosNow
  let program := (← IO.appPath).toString
  let i : Invocation :=
    { program, args, environment := ← environment, tree := ← treeOf (pathsOf args), now := ← now }
  let gathered ← IO.monoNanosNow
  let _ ← IO.lazyPure fun _ => CommandLine.run i
  let finished ← IO.monoNanosNow
  return { i with
    timing :=
      { read := Span.ofNanos (gathered - started)
        scan := Span.ofNanos (finished - gathered)
        batch := Span.ofNanos (finished - started) } }

end ScalaLex.Main

/-- Run the program and write what it gives. -/
def main (args : List String) : IO UInt32 := do
  let outcome := ScalaLex.CommandLine.run (← ScalaLex.Main.timed args)
  (← IO.getStderr).putStr outcome.err
  (← IO.getStdout).putStr outcome.out
  return outcome.status.toUInt32
