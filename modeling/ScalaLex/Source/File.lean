import ScalaLex.Log.Logged
import ScalaLex.Preferences.Basic
import ScalaLex.Scan.Scanner
import ScalaLex.Source.Lines
import ScalaLex.Source.Size
import ScalaLex.Text.Quoted
import ScalaLex.Tree.Lookup

/-!
# Reading source files

`SourceFile.read` checks a path and reads the file there. The checks come in a fixed
order, and the first that fails is the error : the path is not empty, it leads somewhere,
to a regular file, whose absolute path can be found, which is not too large and has the
extension of Scala sources where that is asked for. `SourceFile.load` is the same with its
log : one event for the attempt and one for how it ended.
-/

namespace ScalaLex

/-- Why a source file was not read. -/
inductive FileError where
  | notFound (path : String)
  | invalidExtension (extension? : Option String)
  | tooLarge (size limit : Nat)
  | permissionDenied (path : String)
  | readFailure (message : String)
  | invalidPath (path : String)
deriving Repr, DecidableEq, Inhabited

namespace FileError

/-- The error for people. -/
def message : FileError → String
  | notFound path => "File not found: " ++ path
  | invalidExtension extension? =>
    "Invalid file extension: expected .scala, found " ++ Quoted.option extension?
  | tooLarge size limit =>
    "File too large: " ++ toString size ++ " bytes (max: " ++ toString limit ++ ")"
  | permissionDenied path => "Permission denied: " ++ path
  | readFailure message => "I/O error reading file: " ++ message
  | invalidPath path => "Invalid file path: " ++ path

/-- The error for a path of which the operating system told `message`. -/
def unreadable (path message : String) : FileError :=
  readFailure ("'" ++ path ++ "': " ++ message)

/-- The code under which the error is told. -/
def code : FileError → Code
  | notFound _ => .fileNotFound
  | invalidExtension _ => .invalidExtension
  | tooLarge _ _ => .fileTooLarge
  | permissionDenied _ => .permissionDenied
  | readFailure _ => .readFailure
  | invalidPath _ => .invalidPath

/-- The work can go on with other files. -/
def isRecoverable (e : FileError) : Bool := e.code.isRecoverable

end FileError

/-- A source file that was read. -/
structure SourceFile where
  /-- The absolute path, without links. -/
  path : String
  /-- The extension in lower case. -/
  extension? : Option String := none
  bytes : List UInt8
  lineCount : Nat := 0
  elapsed : Span := {}
deriving Repr, DecidableEq, Inhabited

namespace SourceFile

/-- The extension of Scala sources. -/
def scalaExtension : String := "scala"

/-- The extension of a path in lower case. -/
def lowerExtension? (path : String) : Option String :=
  (Path.extension? path).map Text.lowercase

/-- The file has the extension of Scala sources. -/
def isScala (f : SourceFile) : Bool := f.extension? == some scalaExtension

/-- How many bytes the file has. -/
def size (f : SourceFile) : Nat := f.bytes.length

/-- The file is text in UTF-8. -/
def isUtf8 (f : SourceFile) : Bool := Utf8.isValid f.bytes

/-- Bytes read per millisecond. -/
def rate (f : SourceFile) : Float := f.elapsed.rate f.size

/-- A refused file : the error, and the event that tells of it. -/
structure Refusal where
  error : FileError
  message : String
  details : List (String × String) := []
deriving Repr, DecidableEq, Inhabited

/-- The event that tells of a refusal. -/
def Refusal.event (r : Refusal) : Event :=
  (Event.error r.error.code r.message).withPairs r.details

/-- The absolute path and the content of the regular file at a path. -/
def locate (t : FileTree) (path : String) : Except Refusal (String × Content) :=
  if path.isEmpty then .error ⟨.invalidPath "", "Empty file path provided", []⟩
  else match t.resolve path with
    | .error _ => .error ⟨.notFound path, "File not found", [("path", path)]⟩
    | .ok here =>
      match t.nodeAt here, t.realPath path with
      | .file content, .ok absolute => .ok (absolute, content)
      | .file _, .error e => .error ⟨.unreadable path e.message, "Failed to canonicalize path",
          [("path", path), ("io_error", e.message)]⟩
      | _, _ => .error ⟨.invalidPath path, "Path is not a file", [("path", path)]⟩

/-- Refuse a file that is too large or has the wrong extension. -/
def check (prefs : FilePreferences) (path : String) (content : Content) : Except Refusal Unit :=
  if FileSize.limit < content.size then
    .error ⟨.tooLarge content.size FileSize.limit, "File exceeds maximum size limit",
      [("file", path), ("size_human", FileSize.text content.size),
        ("limit_bytes", toString FileSize.limit)]⟩
  else if prefs.requireExtension && lowerExtension? path != some scalaExtension then
    .error ⟨.invalidExtension (lowerExtension? path),
      "File does not have required .scala extension",
      [("file", path), ("extension", (lowerExtension? path).getD "none")]⟩
  else .ok ()

/-- The file at a path, read in `elapsed`. -/
def read (prefs : FilePreferences) (t : FileTree) (elapsed : Span) (path : String) :
    Except Refusal SourceFile := do
  let (absolute, content) ← locate t path
  check prefs absolute content
  let bytes := content.toList
  return ⟨absolute, lowerExtension? absolute, bytes, countLines bytes, elapsed⟩

/-- The event for a file that was read. -/
def doneEvent (prefs : FilePreferences) (f : SourceFile) : Event :=
  if prefs.logPerformance then
    (Event.success .fileRead "File read with performance metrics").withPairs
      [("file", f.path), ("size_human", FileSize.text f.size), ("lines", toString f.lineCount),
        ("duration_ms", Fixed.float f.elapsed.toMillis), ("bytes_per_ms", Fixed.float f.rate),
        ("is_large_file", Pairs.truth (FileSize.isLarge f.size)),
        ("utf8", Pairs.truth f.isUtf8)]
  else
    (Event.success .fileRead "File read").withPairs
      [("file", f.path), ("size_bytes", toString f.size), ("lines", toString f.lineCount)]

/-- The event for how reading ended. -/
def outcomeEvent (prefs : FilePreferences) : Except Refusal SourceFile → Event
  | .ok f => doneEvent prefs f
  | .error r => r.event

/-- Read the file at a path, with a log. -/
def load (prefs : FilePreferences) (t : FileTree) (elapsed : Span) (path : String) :
    Logged (Except FileError SourceFile) := do
  Logged.emit ((Event.debug "Starting file processing").withPair "file" path)
  let outcome := read prefs t elapsed path
  Logged.emit (outcomeEvent prefs outcome)
  return outcome.mapError (·.error)

end SourceFile

/-- Scan a file that was read, in the course of that file. -/
def Scanner.parseFile (s : Scanner) (elapsed : Span) (f : SourceFile) : Logged Scanner :=
  Logged.within f.path (s.parse elapsed f.bytes)

end ScalaLex
