import ScalaLex.Batch.Discovery
import ScalaLex.Source.File

/-!
# Tokenizing a directory

The files found in a directory are dealt out to workers in consecutive chunks, as even as
they can be. Each worker reads and scans its files in order with a scanner of its own. A
file that is not read is a failure and stops nothing, unless the batch is to stop at the
first failure : then no further file is taken up. What the workers have is joined and put
in path order, the files that were read and those that were not (`BatchResults`).
-/

namespace ScalaLex

/-- How long each kind of work took. -/
structure Timing where
  read : Span := {}
  scan : Span := {}
  batch : Span := {}
deriving Repr, DecidableEq, Inhabited

/-- The scan of one file of a directory. -/
structure FileTokens where
  path : String
  lineCount : Nat
  scan : Scan
deriving Repr, DecidableEq, Inhabited

/-- A file that was not read. -/
structure FileFailure where
  path : String
  error : FileError
deriving Repr, DecidableEq, Inhabited

/-- What came of the files of a directory. -/
structure BatchResults where
  files : List FileTokens := []
  failures : List FileFailure := []
  elapsed : Span := {}
deriving Repr, DecidableEq, Inhabited

namespace BatchResults

/-- How many files were read. -/
def successCount (r : BatchResults) : Nat := r.files.length

/-- How many files were not read. -/
def failureCount (r : BatchResults) : Nat := r.failures.length

/-- How many files were taken up. -/
def fileCount (r : BatchResults) : Nat := r.successCount + r.failureCount

/-- The tokens of all files, file after file. -/
def tokens (r : BatchResults) : List Token := r.files.flatMap (·.scan.tokens)

/-- How many tokens all files have. -/
def tokenCount (r : BatchResults) : Nat := r.files.foldl (fun n f => n + f.scan.tokens.length) 0

/-- The counts of all files. -/
def counts (r : BatchResults) : Counts := Counts.sum (r.files.map (·.scan.counts))

/-- One line that sums up the results. -/
def summary (r : BatchResults) : String :=
  toString r.fileCount ++ " files processed: " ++ toString r.successCount ++ " tokenized, " ++
    toString r.failureCount ++ " failed, " ++ toString r.tokenCount ++ " tokens, " ++
    Fixed.float r.elapsed.toSeconds ++ "s"

/-- The event for finished results. -/
def doneEvent (r : BatchResults) : Event :=
  (Event.success .batchComplete "Batch tokenization completed").withPairs
    [("files_tokenized", toString r.successCount), ("failed", toString r.failureCount),
      ("tokens", toString r.tokenCount), ("duration_ms", Fixed.float r.elapsed.toMillis)]

end BatchResults

/-- Runs of `size` consecutive elements, and of what is left at the end. A size of zero
counts as one. -/
def chunks {α : Type} (size : Nat) : List α → List (List α)
  | [] => []
  | x :: rest => (x :: rest.take (size - 1)) :: chunks size (rest.drop (size - 1))
termination_by xs => xs.length
decreasing_by simp only [List.length_drop, List.length_cons]; omega

/-- Nothing is lost between chunks. -/
theorem flatten_chunks {α : Type} (size : Nat) (xs : List α) : (chunks size xs).flatten = xs := by
  fun_induction chunks size xs with
  | case1 => rfl
  | case2 x rest ih => simp [ih]

/-- How the files of a directory are found, read and scanned. -/
structure Batch where
  config : BatchPreferences := {}
  files : FilePreferences := {}
  scan : ScanPreferences := {}
deriving Repr, DecidableEq, Inhabited

/-- A worker : its scanner, the files and failures so far, the last ones first, and whether
it knows that the batch has been stopped. -/
structure Worker where
  scanner : Scanner
  files : List FileTokens := []
  failures : List FileFailure := []
  stopped : Bool := false
deriving Repr, DecidableEq, Inhabited

/-- What workers have, joined and in path order. -/
def BatchResults.ofWorkers (elapsed : Span) (ws : List Worker) : BatchResults where
  files := Path.sortOn (·.path) (ws.flatMap fun w => w.files.reverse)
  failures := Path.sortOn (·.path) (ws.flatMap fun w => w.failures.reverse)
  elapsed

namespace Batch

/-- How many workers there are for `n` files. -/
def workers (b : Batch) (n : Nat) : Nat := min (clampThreads b.config.maxThreads) n

/-- How many files a worker is dealt of `n`. -/
def chunkSize (b : Batch) (n : Nat) : Nat := (n + b.workers n - 1) / b.workers n

/-- The events for a failure. -/
def failureEvents (b : Batch) (path : String) (e : FileError) : List Event :=
  if b.config.failFast then
    [(Event.warningWithCode e.code "Fail-fast enabled, stopping batch").withPair "file" path]
  else []

/-- Read and scan a file. -/
def tokenizeFile (b : Batch) (t : FileTree) (timing : Timing) (w : Worker) (path : String) :
    Logged Worker := do
  match ← SourceFile.load b.files t timing.read path with
  | .ok file =>
    let scanner ← w.scanner.parseFile timing.scan file
    return { w with scanner, files := ⟨path, file.lineCount, scanner.last⟩ :: w.files }
  | .error e =>
    Logged.emitAll (b.failureEvents path e)
    return { w with
      failures := ⟨path, e⟩ :: w.failures
      stopped := w.stopped || b.config.failFast }

/-- Take up a file unless the batch has been stopped. -/
def step (b : Batch) (t : FileTree) (timing : Timing) (w : Worker) (path : String) :
    Logged Worker :=
  if w.stopped then pure w else Logged.within path (b.tokenizeFile t timing w path)

/-- A worker that has done nothing yet. -/
def newWorker (b : Batch) (stopped : Bool) : Worker :=
  { scanner := { preferences := b.scan }, stopped }

/-- Work through the files of a chunk with a worker of their own. -/
def runChunk (b : Batch) (t : FileTree) (timing : Timing) (stopped : Bool)
    (chunk : List String) : Logged Worker :=
  chunk.foldlM (b.step t timing) (b.newWorker stopped)

/-- Work through chunks, worker after worker. A worker that stops the batch stops it for all
that come after it. -/
def runChunks (b : Batch) (t : FileTree) (timing : Timing) (stopped : Bool) :
    List (List String) → Logged (List Worker)
  | [] => pure []
  | chunk :: rest => do
    let w ← b.runChunk t timing stopped chunk
    let others ← b.runChunks t timing w.stopped rest
    return w :: others

/-- Work through all files. -/
def runFiles (b : Batch) (t : FileTree) (timing : Timing) (files : List String) :
    Logged BatchResults := do
  let ws ← b.runChunks t timing false (chunks (b.chunkSize files.length) files)
  return .ofWorkers timing.batch ws

/-- Tokenize the files of a directory. -/
def run (b : Batch) (t : FileTree) (timing : Timing) (directory : String) :
    Logged (Except BatchError BatchResults) := do
  match ← discover b.config t directory with
  | .error e => return .error e
  | .ok files =>
    Logged.emit ((Event.info "Starting batch tokenization").withPairs
      [("directory", directory), ("files", toString files.length),
        ("workers", toString (b.workers files.length))])
    let results ← b.runFiles t timing files
    Logged.emit results.doneEvent
    return .ok results

end Batch

/-- Directory preferences with a thread count within the bounds. -/
def BatchPreferences.clamped (p : BatchPreferences) : BatchPreferences :=
  { p with maxThreads := clampThreads p.maxThreads }

end ScalaLex
