import ScalaLex.Batch.Run
import ScalaLex.Token.Json

/-!
# Token reports

A report lists the tokens of files with their counts, the moment it was made and the
version of the tool, as JSON.
-/

namespace ScalaLex

/-- The version that reports and the help text name. -/
def toolVersion : String := "0.1.0"

/-- The tokens of one file. -/
structure FileReport where
  path : String
  lineCount : Nat
  tokens : List Token
deriving Repr, DecidableEq, Inhabited

/-- The tokens of files at a moment. -/
structure Report where
  generatedAt : Instant
  files : List FileReport
deriving Repr, DecidableEq, Inhabited

namespace FileReport

/-- The report of a scanned file. -/
def ofFileTokens (f : FileTokens) : FileReport := ⟨f.path, f.lineCount, f.scan.tokens⟩

/-- The counts of the tokens. -/
def counts (f : FileReport) : Counts := Counts.ofTokens f.tokens

/-- The file as JSON. -/
def toJson (f : FileReport) : Json :=
  .ofMembers [("path", .ofText f.path), ("line_count", .ofNat f.lineCount),
    ("counts", f.counts.toJson), ("tokens", Token.listToJson f.tokens)]

end FileReport

namespace Report

/-- The report of the files that were read. -/
def ofBatch (moment : Instant) (r : BatchResults) : Report :=
  ⟨moment, r.files.map FileReport.ofFileTokens⟩

/-- The report of one file. -/
def ofFile (moment : Instant) (path : String) (lineCount : Nat) (tokens : List Token) : Report :=
  ⟨moment, [⟨path, lineCount, tokens⟩]⟩

/-- How many tokens all files have. -/
def tokenCount (r : Report) : Nat := r.files.foldl (fun n f => n + f.tokens.length) 0

/-- The report as JSON. -/
def toJson (r : Report) : Json :=
  .ofMembers [("generated_at", .ofText r.generatedAt.toText), ("tool_version", .ofText toolVersion),
    ("files", .array (r.files.map FileReport.toJson))]

/-- The text of the report, on one line or in the wide layout. -/
def text (r : Report) (isPretty : Bool) : String := r.toJson.write isPretty

end Report

end ScalaLex
