import ScalaLex.Log.Logged
import ScalaLex.Preferences.Basic
import ScalaLex.Text.Quoted
import ScalaLex.Tree.Lookup

/-!
# Finding the files of a directory

A directory is searched depth first, its entries in the order of their names. A file
counts if it has one of the extensions asked for, up to the case of ASCII letters; a link
counts if it leads to a regular file. Directories are entered if the search is recursive,
links to directories never. The search stops at a limit, and every directory that it
leaves unfinished for it is warned of. It fails at a directory that cannot be listed, be it
that its path is too long to be looked up, and passes over files with such a path.
-/

namespace ScalaLex

/-- Why a directory was not tokenized. -/
inductive BatchError where
  | directoryNotFound (path : String)
  | notADirectory (path : String)
  | noFilesFound (path : String) (extensions : List String)
  | traversal (path message : String)
  | workerFailed (worker : Nat)
deriving Repr, DecidableEq, Inhabited

namespace BatchError

/-- The error for people. -/
def message : BatchError → String
  | directoryNotFound path => "Directory not found: " ++ path
  | notADirectory path => "Not a directory: " ++ path
  | noFilesFound path extensions =>
    "No files with extensions " ++ Quoted.list extensions ++ " found in: " ++ path
  | traversal path message =>
    "IO error during directory traversal of '" ++ path ++ "': " ++ message
  | workerFailed worker => "Batch worker " ++ toString worker ++ " panicked"

/-- The code under which the error is told. -/
def code : BatchError → Code
  | directoryNotFound _ => .directoryNotFound
  | notADirectory _ => .notADirectory
  | noFilesFound _ _ => .noFilesFound
  | traversal _ _ => .discoveryFailure
  | workerFailed _ => .workerFailure

end BatchError

/-- A search under way. -/
structure Search where
  /-- The files found, the last one first. -/
  reversed : List String := []
  count : Nat := 0
  /-- The directories left unfinished. -/
  unfinished : Nat := 0
deriving Repr, DecidableEq, Inhabited

namespace Search

/-- The most files of a search. -/
def limit : Nat := 10000

/-- One more file. -/
def push (s : Search) (path : String) : Search :=
  { s with reversed := path :: s.reversed, count := s.count + 1 }

/-- The files found, in order. -/
def files (s : Search) : List String := s.reversed.reverse

/-- The file name has one of the extensions, up to the case of ASCII letters. -/
def hasExtension (extensions : List String) (name : String) : Bool :=
  match Path.extensionOfName? name with
  | some extension => extensions.any (Text.eqIgnoreAsciiCase · extension)
  | none => false

/-- What is not a directory is, or leads to, a regular file that can be looked up. -/
def leadsToFile (t : FileTree) (path : String) : Node → Bool
  | .file _ => FileTree.fits path
  | .link _ => t.isFile path
  | .directory _ => false

/-- Take up an entry that is no directory if it counts. -/
def visitFile (config : BatchPreferences) (t : FileTree) (directory name : String)
    (node : Node) (s : Search) : Search :=
  let path := Path.join directory name
  if hasExtension config.extensions name && leadsToFile t path node then s.push path else s

mutual

/-- Search an entry `name` of `directory`. The entries of a directory that can be listed are
those that lie there. -/
def visit (config : BatchPreferences) (t : FileTree) (directory name : String) :
    Node → Search → Except BatchError Search
  | .directory entries, s =>
    if !config.recursive then .ok s
    else match t.list (Path.join directory name) with
      | .error message => .error (.traversal (Path.join directory name) message)
      | .ok _ => visitAll config t (Path.join directory name) entries s
  | node, s => .ok (visitFile config t directory name node s)

/-- Search the entries of a directory in order, up to the limit. -/
def visitAll (config : BatchPreferences) (t : FileTree) (directory : String) :
    List (String × Node) → Search → Except BatchError Search
  | [], s => .ok s
  | (name, node) :: rest, s =>
    if limit ≤ s.count then .ok { s with unfinished := s.unfinished + 1 }
    else match visit config t directory name node s with
      | .ok s => visitAll config t directory rest s
      | .error e => .error e

end

/-- Search the directory at a path. -/
def visitDirectory (config : BatchPreferences) (t : FileTree) (directory : String) :
    Except BatchError Search :=
  match t.list directory with
  | .error message => .error (.traversal directory message)
  | .ok entries => visitAll config t directory entries {}

/-- The warning for a directory left unfinished. -/
def limitEvent (s : Search) : Event :=
  (Event.warningWithCode .fileLimitReached "Reached maximum file limit").withPairs
    [("files_found", toString s.count), ("limit", toString limit)]

end Search

/-- The files to tokenize in a directory, in path order. A search that fails has nothing to
warn of : at the limit no directory is entered. -/
def discover (config : BatchPreferences) (t : FileTree) (directory : String) :
    Logged (Except BatchError (List String)) := do
  Logged.emit ((Event.info "Starting file discovery").withPairs
    [("directory", directory), ("recursive", Pairs.truth config.recursive)])
  match t.node? directory with
  | .error _ => return .error (.directoryNotFound directory)
  | .ok (.directory _) =>
    match Search.visitDirectory config t directory with
    | .error e => return .error e
    | .ok search =>
      Logged.emitAll (List.replicate search.unfinished search.limitEvent)
      if search.count = 0 then
        return .error (.noFilesFound directory config.extensions)
      else
        Logged.emit ((Event.debug "File discovery completed").withPairs
          [("files_found", toString search.count), ("directory", directory)])
        return .ok (Path.sortOn id search.files)
  | .ok _ => return .error (.notADirectory directory)

end ScalaLex
