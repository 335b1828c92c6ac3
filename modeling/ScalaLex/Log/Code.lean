/-!
# Codes of events and errors

Every event carries a code. The registry says for each known code what it is about, how
severe it is and whether the program can go on after it. A code that is not registered has
medium severity and counts as recoverable.
-/

namespace ScalaLex

/-- How severe a coded condition is. -/
inductive Severity where
  | critical
  | high
  | medium
  | low
deriving Repr, DecidableEq, Inhabited

/-- The name of a severity in every output. -/
def Severity.name : Severity → String
  | critical => "Critical"
  | high => "High"
  | medium => "Medium"
  | low => "Low"

/-- The code of an event or an error. -/
structure Code where
  text : String
deriving Repr, DecidableEq, Inhabited

namespace Code

def internalError : Code := ⟨"ERR001"⟩
def initializationFailure : Code := ⟨"ERR002"⟩
def configurationError : Code := ⟨"ERR004"⟩
def fileNotFound : Code := ⟨"E005"⟩
def invalidExtension : Code := ⟨"E006"⟩
def fileTooLarge : Code := ⟨"E007"⟩
def permissionDenied : Code := ⟨"E009"⟩
def readFailure : Code := ⟨"E011"⟩
def invalidPath : Code := ⟨"E012"⟩
def unterminatedString : Code := ⟨"W020"⟩
def unterminatedChar : Code := ⟨"W021"⟩
def unterminatedComment : Code := ⟨"W022"⟩
def directoryNotFound : Code := ⟨"E300"⟩
def notADirectory : Code := ⟨"E301"⟩
def noFilesFound : Code := ⟨"E302"⟩
def workerFailure : Code := ⟨"E303"⟩
def discoveryFailure : Code := ⟨"E304"⟩
def fileLimitReached : Code := ⟨"W300"⟩
def reportFailure : Code := ⟨"E310"⟩
def initialized : Code := ⟨"I004"⟩
def fileRead : Code := ⟨"I006"⟩
def scanComplete : Code := ⟨"I020"⟩
def batchComplete : Code := ⟨"I030"⟩

/-- The code of warnings that name none. -/
def genericWarning : Code := ⟨"W000"⟩

/-- The code of plain information. -/
def genericInfo : Code := ⟨"I000"⟩

/-- The code of debug output. -/
def genericDebug : Code := ⟨"D000"⟩

/-- What the registry says of a code. -/
structure Entry where
  code : Code
  category : String
  severity : Severity
  recoverable : Bool
  description : String
deriving Repr, DecidableEq, Inhabited

/-- The known codes. -/
def registry : List Entry := [
  ⟨internalError, "System", .critical, false, "Internal tokenizer error"⟩,
  ⟨initializationFailure, "System", .critical, false, "Tokenizer initialization failed"⟩,
  ⟨configurationError, "System", .high, false, "Configuration file could not be loaded"⟩,
  ⟨fileNotFound, "FileProcessing", .medium, false, "File not found at specified path"⟩,
  ⟨invalidExtension, "FileProcessing", .low, true, "File does not have a .scala extension"⟩,
  ⟨fileTooLarge, "FileProcessing", .medium, false, "File exceeds maximum size limit"⟩,
  ⟨permissionDenied, "FileProcessing", .medium, false, "Permission denied accessing file"⟩,
  ⟨readFailure, "FileProcessing", .high, false, "I/O error while reading file"⟩,
  ⟨invalidPath, "FileProcessing", .medium, false, "Path is empty or not a regular file"⟩,
  ⟨unterminatedString, "Lexical", .low, true, "Input ended inside a string literal"⟩,
  ⟨unterminatedChar, "Lexical", .low, true, "Input ended inside a character literal"⟩,
  ⟨unterminatedComment, "Lexical", .low, true, "Input ended inside a block comment"⟩,
  ⟨directoryNotFound, "Batch", .medium, false, "Batch directory not found"⟩,
  ⟨notADirectory, "Batch", .medium, false, "Batch path is not a directory"⟩,
  ⟨noFilesFound, "Batch", .low, true, "No matching source files in directory"⟩,
  ⟨workerFailure, "Batch", .high, false, "A batch worker thread panicked"⟩,
  ⟨discoveryFailure, "Batch", .medium, false, "I/O error during file discovery"⟩,
  ⟨fileLimitReached, "Batch", .low, true, "Discovery stopped at the per-batch file limit"⟩,
  ⟨reportFailure, "Output", .medium, false, "Token report serialization failed"⟩,
  ⟨initialized, "Success", .low, true, "Logging and tokenizer initialized"⟩,
  ⟨fileRead, "Success", .low, true, "Source file read"⟩,
  ⟨scanComplete, "Success", .low, true, "Token sequence produced"⟩,
  ⟨batchComplete, "Success", .low, true, "Directory tokenization finished"⟩]

/-- What the registry says of the code, if it is known. -/
def entry? (c : Code) : Option Entry := registry.find? (·.code == c)

/-- The code is in the registry. -/
def isRegistered (c : Code) : Bool := c.entry?.isSome

/-- How severe it is : medium for a code that is not in the registry. -/
def severity (c : Code) : Severity := (c.entry?.map (·.severity)).getD .medium

/-- The work can go on : so it can for a code that is not in the registry. -/
def isRecoverable (c : Code) : Bool := (c.entry?.map (·.recoverable)).getD true

/-- What the code stands for. -/
def description (c : Code) : String := (c.entry?.map (·.description)).getD "Unknown code"

/-- The part of the program that the code belongs to. -/
def category (c : Code) : String := (c.entry?.map (·.category)).getD "Unknown"

/-- No code is registered twice. -/
theorem nodup_registry : (registry.map (·.code)).Nodup := by decide

end Code

end ScalaLex
