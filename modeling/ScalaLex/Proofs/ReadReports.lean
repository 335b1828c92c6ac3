import ScalaLex.Proofs.Batches
import ScalaLex.Proofs.ObjectMembers
import ScalaLex.Proofs.OutsideStrings
import ScalaLex.Report

/-!
# Reports read back

The text of a report lists its files with their counts and tokens, in one of two layouts. Both are
read back as the same list (`Report.listed?_text`), and the wide layout without the white space
outside its strings is the other one.

The report of a batch lists the files that were read, in the order of the results, each with its
tokens and the counts of these. Counts and tokens of all listed files add up to what the results
tell of the batch as a whole (`listed?_ofBatch`).
-/

namespace ScalaLex

open Json (ofMembers ofText ofNat)

/-- What a report lists of a file. -/
structure ListedFile where
  path : String
  lineCount : Nat
  counts : Counts
  tokens : List Token
deriving Repr, DecidableEq

/-- What is listed of a file. -/
def FileReport.listed (f : FileReport) : ListedFile :=
  ⟨f.path, f.lineCount, Counts.ofTokens f.tokens, f.tokens⟩

/-! ## Readers -/

/-- The counts that an object tells. -/
def Counts.ofJson? (j : Json) : Option Counts := do
  let reserved ← (← j.field? "reserved").nat?
  let identifiers ← (← j.field? "identifiers").nat?
  let literals ← (← j.field? "literals").nat?
  let operators ← (← j.field? "operators").nat?
  let mergedOperators ← (← j.field? "merged_operators").nat?
  return { reserved, identifiers, literals, operators, mergedOperators }

/-- The file that an object lists. -/
def ListedFile.ofJson? (j : Json) : Option ListedFile := do
  let path ← (← j.field? "path").text?
  let lineCount ← (← j.field? "line_count").nat?
  let counts ← Counts.ofJson? (← j.field? "counts")
  let tokens ← Token.listOfJson? (← j.field? "tokens")
  return { path, lineCount, counts, tokens }

/-- The files that the text of a report lists, in order. -/
def Report.listed? (text : String) : Option (List ListedFile) := do
  (← (← Json.parse? text).field? "files").list? ListedFile.ofJson?

/-! ## Reports that were written -/

theorem Counts.isSpelled_toJson (c : Counts) : c.toJson.IsSpelled := by
  refine Json.isSpelled_ofMembers ?_
  simp [Json.isSpelled_ofNat]

/-- Counts are read back from their object. -/
theorem Counts.ofJson?_toJson (c : Counts) : ofJson? c.toJson = some c := by
  have hfield : c.toJson.field? "reserved" = some (ofNat c.reserved) ∧
      c.toJson.field? "identifiers" = some (ofNat c.identifiers) ∧
      c.toJson.field? "literals" = some (ofNat c.literals) ∧
      c.toJson.field? "operators" = some (ofNat c.operators) ∧
      c.toJson.field? "merged_operators" = some (ofNat c.mergedOperators) := by
    refine ⟨?_, ?_, ?_, ?_, ?_⟩
    all_goals
      refine Json.field?_ofMembers ?_
      simp
  simp [ofJson?, hfield, Json.nat?_ofNat]

namespace FileReport

theorem isSpelled_toJson (f : FileReport) : f.toJson.IsSpelled := by
  refine Json.isSpelled_ofMembers ?_
  simp [Json.isSpelled_ofText, Json.isSpelled_ofNat, f.counts.isSpelled_toJson,
    Token.isSpelled_listToJson]

/-- What a report lists of a file is read back. -/
theorem ofJson?_toJson (f : FileReport) : ListedFile.ofJson? f.toJson = some f.listed := by
  have hfield : f.toJson.field? "path" = some (ofText f.path) ∧
      f.toJson.field? "line_count" = some (ofNat f.lineCount) ∧
      f.toJson.field? "counts" = some f.counts.toJson ∧
      f.toJson.field? "tokens" = some (Token.listToJson f.tokens) := by
    refine ⟨?_, ?_, ?_, ?_⟩
    all_goals
      refine Json.field?_ofMembers ?_
      simp
  simp [ListedFile.ofJson?, hfield, Json.text?_ofText, Json.nat?_ofNat, Counts.ofJson?_toJson,
    Token.listOfJson?_listToJson, listed, counts]

end FileReport

namespace Report

theorem isSpelled_toJson (r : Report) : r.toJson.IsSpelled := by
  have hfiles : (Json.array (r.files.map FileReport.toJson)).IsSpelled :=
    .array (List.forall_mem_map.2 fun f _ => f.isSpelled_toJson)
  refine Json.isSpelled_ofMembers ?_
  simp [Json.isSpelled_ofText, hfiles]

/-- The files of a report are read back from its text, whatever the layout. -/
theorem listed?_text (r : Report) (isPretty : Bool) :
    listed? (r.text isPretty) = some (r.files.map FileReport.listed) := by
  have hfiles : r.toJson.field? "files" = some (.array (r.files.map FileReport.toJson)) :=
    Json.field?_ofMembers (by simp)
  rw [listed?, text, r.isSpelled_toJson.parse?_write]
  simp [hfiles, Json.list?_array ListedFile.ofJson? _ FileReport.ofJson?_toJson]

end Report

/-! ## The report of a batch -/

/-- The wide report of a batch is the narrow one with white space outside its strings. From both the
files that were read are read back, in the order of the results and no others, each with its tokens
and the counts of these. Counts and tokens add up to those of the batch. -/
theorem listed?_ofBatch (r : BatchResults) (moment : Instant) :
    let report := Report.ofBatch moment r
    let listed : List ListedFile := r.files.map fun f =>
      ⟨f.path, f.lineCount, Counts.ofTokens f.scan.tokens, f.scan.tokens⟩
    Json.withoutSpace (report.text true) = report.text false ∧
    (∀ isPretty, Report.listed? (report.text isPretty) = some listed) ∧
    Counts.sum (listed.map (·.counts)) = r.counts ∧
    Counts.ofTokens (listed.flatMap (·.tokens)) = r.counts ∧
    report.tokenCount = r.tokenCount ∧
    (listed.flatMap (·.tokens)).length = r.tokenCount := by
  intro report listed
  have hlisted : report.files.map FileReport.listed = listed := by
    simp [report, listed, Report.ofBatch, FileReport.ofFileTokens, FileReport.listed]
  have htokens : listed.flatMap (·.tokens) = r.tokens := by
    simp [listed, List.flatMap_map, BatchResults.tokens]
  refine ⟨report.isSpelled_toJson.withoutSpace_write true, fun isPretty => ?_, ?_, ?_, ?_, ?_⟩
  · rw [report.listed?_text, hlisted]
  · simp only [listed, List.map_map]
    rfl
  · rw [htokens, r.counts_eq]
  · simp only [report, Report.ofBatch, Report.tokenCount, List.foldl_map]
    rfl
  · rw [htokens, r.tokenCount_eq]

end ScalaLex
