import ScalaLex.Log.Service
import ScalaLex.Preferences.Basic
import ScalaLex.ReservedWords

/-!
# Starting the log

A program has one log service, put in place once. Starting it checks that the codes that
the program relies on are registered, and that there are reserved words to scan with.
-/

namespace ScalaLex

/-- Why the log did not start. -/
inductive StartError where
  | alreadyStarted
  | missingCode (code : Code)
  | missingScanCode (code : Code)
  | noReservedWords
deriving Repr, DecidableEq, Inhabited

/-- The error for people. -/
def StartError.message : StartError → String
  | alreadyStarted => "Global logger already initialized"
  | missingCode code => "Missing metadata for code: " ++ code.text
  | missingScanCode code => "Lexical code " ++ code.text ++ " not found in registry"
  | noReservedWords => "Reserved-word table is empty"

namespace Service

/-- The service that preferences ask for. -/
def ofPreferences (p : LogPreferences) : Service where
  sink := if !p.console then .discard else if p.structured then .structured else .console
  limit := p.minLevel
  includesFile := p.includeFile

/-- The codes that a service must know. -/
def requiredCodes : List Code :=
  [.internalError, .fileNotFound, .unterminatedString, .scanComplete]

/-- Put a service in place unless there is one. -/
def start (current? : Option Service) (p : LogPreferences) :
    Logged (Except StartError Service) := do
  if current?.isSome then return .error .alreadyStarted
  else match requiredCodes.find? fun c => !c.isRegistered with
    | some code => return .error (.missingCode code)
    | none =>
      Logged.emit ((Event.success .initialized "Global logging system initialized").withPair
        "min_level" p.minLevel.name)
      return .ok (ofPreferences p)

/-- The codes that scanning must find registered. -/
def scanCodes : List Code :=
  [.unterminatedString, .unterminatedChar, .unterminatedComment, .scanComplete]

/-- Check what scanning relies on. -/
def startScanning : Logged (Except StartError Unit) := do
  match scanCodes.find? fun c => !c.isRegistered with
  | some code => return .error (.missingScanCode code)
  | none =>
    if ReservedWords.declared.isEmpty then return .error .noReservedWords
    else
      Logged.emit ((Event.debug "Lexical module initialized").withPair "reserved_words"
        (toString ReservedWords.declared.length))
      return .ok ()

end Service

end ScalaLex
