import Mathlib
import ScalaLex.Proofs.FoundFiles
import ScalaLex.Proofs.Turns

/-!
# Batches

The files of a directory are dealt out to workers in chunks that are not empty, one worker at
most a chunk (`Batch.DealsOut`). Each file comes up once in the results of a batch, read and
scanned on its own or refused (`Batch.TokenizesEach`), and totals are those of all tokens
(`BatchResults.counts_eq`, `BatchResults.tokenCount_eq`). How many workers there are, and in which
turns they work, does not show in the results (`Batch.run_for_all_threads`).
-/

namespace ScalaLex

/-! ## Totals -/

namespace BatchResults

/-- Adding up the counts of files counts the tokens of all of them. -/
theorem foldl_add_counts (c : Counts) (fs : List FileTokens) :
    (fs.map (·.scan.counts)).foldl Counts.add c =
      c.add (Counts.ofTokens (fs.flatMap (·.scan.tokens))) := by
  induction fs generalizing c with
  | nil => simp [Counts.ofTokens, Counts.add_zero]
  | cons f fs ih =>
    rw [List.map_cons, List.foldl_cons, ih, Counts.add_assoc, List.flatMap_cons,
      Counts.ofTokens_append]
    rfl

/-- The counts of files are those of their tokens together. -/
theorem counts_eq (r : BatchResults) : r.counts = Counts.ofTokens r.tokens := by
  rw [counts, Counts.sum, foldl_add_counts, Counts.zero_add, tokens]

theorem foldl_length (n : Nat) (fs : List FileTokens) :
    fs.foldl (fun n f => n + f.scan.tokens.length) n =
      n + (fs.flatMap (·.scan.tokens)).length := by
  induction fs generalizing n with
  | nil => rfl
  | cons f fs ih => rw [List.foldl_cons, ih, List.flatMap_cons, List.length_append, Nat.add_assoc]

/-- As many tokens are told of as all files have together. -/
theorem tokenCount_eq (r : BatchResults) : r.tokenCount = r.tokens.length := by
  rw [tokenCount, foldl_length, Nat.zero_add, tokens]

end BatchResults

/-! ## Chunks -/

theorem ne_nil_of_mem_chunks {α : Type} {size : Nat} {xs : List α} :
    ∀ chunk ∈ chunks size xs, chunk ≠ [] := by
  fun_induction chunks size xs with
  | case1 => simp
  | case2 x rest ih => exact List.forall_mem_cons.2 ⟨List.cons_ne_nil _ _, ih⟩

/-- Chunks of a size are no more than it takes to cover the list. -/
theorem length_chunks_le {α : Type} {size n : Nat} {xs : List α} (h : xs.length ≤ size * n) :
    (chunks size xs).length ≤ n := by
  induction n generalizing xs with
  | zero =>
    rw [Nat.mul_zero, Nat.le_zero, List.length_eq_zero_iff] at h
    rw [h, chunks]
    exact Nat.le_refl 0
  | succ n ih =>
    cases xs with
    | nil => rw [chunks]; exact Nat.zero_le _
    | cons x rest =>
      rw [chunks, List.length_cons]
      refine Nat.succ_le_succ (ih ?_)
      rw [List.length_drop]
      rw [List.length_cons, Nat.mul_succ] at h
      omega

namespace Batch

variable {b : Batch} {t : FileTree} {timing : Timing} {directory path : String}
  {files : List String}

/-- Files are dealt out to workers : there are workers, the size of a chunk can be told, no chunk is
empty, no file is left out, and every chunk has a worker. -/
structure DealsOut (b : Batch) (files : List String) : Prop where
  workers_pos : 0 < b.workers files.length
  chunkSize_pos : 0 < b.chunkSize files.length
  ne_nil : ∀ chunk ∈ chunks (b.chunkSize files.length) files, chunk ≠ []
  flatten : (chunks (b.chunkSize files.length) files).flatten = files
  length_le : (chunks (b.chunkSize files.length) files).length ≤ b.workers files.length

/-- Every batch deals its files out in chunks, one at most for a worker. -/
theorem dealsOut (b : Batch) (h : files ≠ []) : b.DealsOut files := by
  have hfiles : 0 < files.length := List.length_pos_iff.2 h
  have hworkers : 0 < b.workers files.length :=
    Nat.lt_min.2 ⟨clampThreads_pos _, hfiles⟩
  -- the size is rounded up, so that the chunks hold all files
  have hsize : files.length ≤ b.chunkSize files.length * b.workers files.length := by
    rw [chunkSize, Nat.mul_comm]
    have := Nat.div_add_mod (files.length + b.workers files.length - 1) (b.workers files.length)
    have := Nat.mod_lt (files.length + b.workers files.length - 1) hworkers
    omega
  refine ⟨hworkers, Nat.pos_of_ne_zero fun hzero => ?_, ne_nil_of_mem_chunks,
    flatten_chunks _ _, length_chunks_le hsize⟩
  rw [hzero, Nat.zero_mul] at hsize
  omega

/-! ## Each file on its own -/

/-- Results in which each file comes up once, for what it is on its own : it is scanned by a scanner
that has scanned nothing else, or it is refused. -/
structure TokenizesEach (b : Batch) (t : FileTree) (timing : Timing) (files : List String)
    (r : BatchResults) : Prop where
  nodup : files.Nodup
  paths : (r.files.map (·.path) ++ r.failures.map (·.path)).Perm files
  files_ordered : r.files.Pairwise fun f g => Path.precedes f.path g.path = true
  failures_ordered : r.failures.Pairwise fun f g => Path.precedes f.path g.path = true
  file : ∀ f ∈ r.files, ∃ source content,
    SourceFile.read b.files t timing.read f.path = .ok source ∧ t.read f.path = .ok content ∧
    f.lineCount = countLines content.toList ∧
    f.scan = (({ preferences := b.scan } : Scanner).parse timing.scan content.toList).value.last
  failure : ∀ f ∈ r.failures, ∃ refusal,
    SourceFile.read b.files t timing.read f.path = .error refusal ∧ f.error = refusal.error
  counts : r.counts = Counts.ofTokens (r.files.flatMap (·.scan.tokens))
  tokenCount : r.tokenCount = (r.files.flatMap (·.scan.tokens)).length

/-- What is made of some paths has these paths, in their order. -/
theorem map_path_filterMap {α : Type} {f : String → Option α} {path : α → String}
    (h : ∀ {p x}, f p = some x → path x = p) (files : List String) :
    (files.filterMap f).map path = files.filter fun p => (f p).isSome := by
  induction files with
  | nil => rfl
  | cons p files ih =>
    cases hp : f p with
    | none => simp [hp, ih]
    | some x => simp [hp, ih, h hp]

/-- The results of a batch tell of every file, each by itself. -/
theorem tokenizesEach_resultsOf (b : Batch) (t : FileTree) (timing : Timing)
    (hfiles : files.Pairwise fun p q => Path.precedes p q = true) :
    b.TokenizesEach t timing files (b.resultsOf t timing files) where
  nodup := hfiles.imp fun hpq heq => by
    rw [heq, Path.not_precedes_self] at hpq
    cases hpq
  paths := by
    rw [resultsOf, map_path_filterMap path_of_tokens?, map_path_filterMap path_of_failure?]
    simp only [isSome_failure?]
    exact List.filter_append_perm _ files
  files_ordered := pairwise_filterMap_path path_of_tokens? hfiles
  failures_ordered := pairwise_filterMap_path path_of_failure? hfiles
  file := by
    intro f hf
    obtain ⟨path, -, hpath⟩ := List.mem_filterMap.1 hf
    unfold tokens? at hpath
    split at hpath
    · rename_i file hread
      obtain ⟨absolute, content, hlocate, -, rfl⟩ := SourceFile.read_eq_ok_iff.1 hread
      cases hpath
      exact ⟨_, content, hread, SourceFile.read_of_locate hlocate, rfl, by rw [Scanner.last_parse]⟩
    · cases hpath
  failure := by
    intro f hf
    obtain ⟨path, -, hpath⟩ := List.mem_filterMap.1 hf
    unfold failure? at hpath
    split at hpath
    · cases hpath
    · rename_i refusal hread
      cases hpath
      exact ⟨refusal, hread, rfl⟩
  counts := BatchResults.counts_eq _
  tokenCount := BatchResults.tokenCount_eq _

/-! ## Any number of workers -/

/-- The batch with a thread count, be it within the bounds or not. -/
def withThreads (b : Batch) (n : Nat) : Batch :=
  { b with config := { b.config with maxThreads := n } }

theorem discover_withThreads (b : Batch) (n : Nat) (t : FileTree) (directory : String) :
    discover (b.withThreads n).config t directory = discover b.config t directory :=
  discover_congr (by rfl) (by rfl) t directory

/-- The number of threads is not looked at where the results are put together. -/
theorem resultsOf_withThreads (b : Batch) (n : Nat) (t : FileTree) (timing : Timing)
    (files : List String) :
    (b.withThreads n).resultsOf t timing files = b.resultsOf t timing files := rfl

/-- A batch in a directory is one of the files that are found there. -/
theorem value_run (hfiles : (discover b.config t directory).value = .ok files) :
    (b.run t timing directory).value = .ok (b.runFiles t timing files).value := by
  rw [run, Logged.value_bind, hfiles]
  rfl

/-- Where discovery fails the batch fails with the same error. -/
theorem value_run_of_error {e : BatchError}
    (he : (discover b.config t directory).value = .error e) :
    (b.run t timing directory).value = .error e := by
  rw [run, Logged.value_bind, he]
  rfl

/-- A batch that does not stop for failures deals out the files that are found and has the same
results with any thread count, whichever worker takes its turn when : each file comes up once, for
what it is on its own. -/
theorem run_for_all_threads (hfast : b.config.failFast = false)
    (hfiles : (discover b.config t directory).value = .ok files) :
    ∃ r, b.TokenizesEach t timing files r ∧ ∀ threads,
      (b.withThreads threads).DealsOut files ∧
        ((b.withThreads threads).run t timing directory).value = .ok r ∧
        ∀ r', (b.withThreads threads).CanEnd t timing files r' → r' = r := by
  obtain ⟨hne, hordered⟩ := ordered_of_discover hfiles
  refine ⟨b.resultsOf t timing files, tokenizesEach_resultsOf b t timing hordered,
    fun threads => ?_⟩
  have hend : ∀ r', (b.withThreads threads).CanEnd t timing files r' →
      r' = b.resultsOf t timing files :=
    fun r' h => (eq_resultsOf_of_canEnd h hordered (Or.inl hfast)).trans
      (resultsOf_withThreads b threads t timing files)
  refine ⟨dealsOut _ hne, ?_, hend⟩
  rw [value_run (discover_withThreads b threads t directory ▸ hfiles)]
  exact congrArg _ (hend _ (canEnd_runFiles _ t timing files))

/-- A directory with a file that is too large and one of one byte. -/
def mixedTree : FileTree where
  root := .directory [("A.scala", .file (.zeros 10485761)), ("B.scala", .file (.bytes [120]))]

theorem discover_mixedTree :
    (discover {} mixedTree ".").value = .ok ["./A.scala", "./B.scala"] := by
  have hnode : mixedTree.node? "." = .ok mixedTree.root := by cbv
  have hsort : Path.sortOn id ["./A.scala", "./B.scala"] = ["./A.scala", "./B.scala"] :=
    Path.sortOn_of_pairwise (by decide)
  have hlist := FileTree.list_of_refusals_nil hnode rfl
  exact (value_discover hnode hlist).trans (congrArg Except.ok hsort)

theorem run_for_all_threads_mixed :
    ({} : Batch).config.failFast = false ∧
    (discover ({} : Batch).config mixedTree ".").value = .ok ["./A.scala", "./B.scala"] ∧
    ∃ r, ({} : Batch).TokenizesEach mixedTree {} ["./A.scala", "./B.scala"] r ∧ ∀ threads,
      (({} : Batch).withThreads threads).DealsOut ["./A.scala", "./B.scala"] ∧
        ((({} : Batch).withThreads threads).run mixedTree {} ".").value = .ok r ∧
        ∀ r', (({} : Batch).withThreads threads).CanEnd mixedTree {}
          ["./A.scala", "./B.scala"] r' → r' = r :=
  ⟨rfl, discover_mixedTree, run_for_all_threads rfl discover_mixedTree⟩

end Batch

end ScalaLex
