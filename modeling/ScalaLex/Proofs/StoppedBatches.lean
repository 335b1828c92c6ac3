import ScalaLex.Proofs.Batches

/-!
# Batches that stop at the first failure

A worker on its own takes up the files of a batch in their order and, if the batch is to stop at
the first failure, none behind that one (`Batch.takenUp`). Each turn keeps this
(`Batch.Task.Alone.turn`), so the batch ends with what these files come to
(`Batch.eq_resultsOf_takenUp`). That is what all files come to, cut off after the first failure
(`Batch.resultsOf_takenUp`), and so two batches that differ in this alone have results of which one
is the other, cut off (`Batch.run_failFast`).
-/

namespace ScalaLex

namespace BatchResults

/-- The results up to the first failure in path order. -/
def untilFailure (r : BatchResults) : BatchResults :=
  match r.failures with
  | [] => r
  | first :: _ =>
    { r with
      files := r.files.filter fun f => Path.precedes f.path first.path
      failures := [first] }

/-- A file that comes before every failure is not cut off. -/
theorem untilFailure_cons {r : BatchResults} {f : FileTokens}
    (h : ∀ g ∈ r.failures, Path.precedes f.path g.path = true) :
    { r with files := f :: r.files }.untilFailure =
      { r.untilFailure with files := f :: r.untilFailure.files } := by
  obtain ⟨files, failures, elapsed⟩ := r
  cases failures with
  | nil => rfl
  | cons first failures =>
    have hfirst := h first List.mem_cons_self
    simp only [untilFailure, List.filter_cons, hfirst, if_true]

end BatchResults

namespace Batch

variable {b : Batch} {t : FileTree} {timing : Timing} {directory path : String}
  {chunk files : List String}

/-! ## The files taken up -/

/-- The files that a worker on its own takes up of those it is dealt. -/
def takenUp (b : Batch) (t : FileTree) (timing : Timing) : List String → List String
  | [] => []
  | path :: rest =>
    path :: if (b.failure? t timing path).isSome && b.config.failFast then []
      else takenUp b t timing rest

theorem takenUp_prefix (b : Batch) (t : FileTree) (timing : Timing) (files : List String) :
    b.takenUp t timing files <+: files := by
  induction files with
  | nil => exact List.prefix_rfl
  | cons path rest ih =>
    rw [takenUp, List.prefix_cons_inj]
    split
    · exact List.nil_prefix
    · exact ih

/-- A file that is read is put before what the others come to. -/
theorem resultsOf_cons_of_read (hfailure : b.failure? t timing path = none) :
    ∃ f, f.path = path ∧ ∀ files, b.resultsOf t timing (path :: files) =
      { b.resultsOf t timing files with files := f :: (b.resultsOf t timing files).files } := by
  have htokens := isSome_failure? b t timing path
  rw [hfailure, Option.isSome_none, eq_comm, Bool.not_eq_false',
    Option.isSome_iff_exists] at htokens
  obtain ⟨f, hf⟩ := htokens
  refine ⟨f, path_of_tokens? hf, fun files => ?_⟩
  simp only [resultsOf, List.filterMap_cons_some hf, List.filterMap_cons_none hfailure]

/-- A file that is not read leaves its failure alone, and cuts off all files that come after it. -/
theorem untilFailure_resultsOf_cons {first : FileFailure}
    (hfailure : b.failure? t timing path = some first)
    (hbefore : ∀ p ∈ files, Path.precedes path p = true) :
    (b.resultsOf t timing (path :: files)).untilFailure = b.resultsOf t timing [path] := by
  have htokens := isSome_failure? b t timing path
  rw [hfailure, Option.isSome_some, eq_comm, Bool.not_eq_true', Option.isSome_eq_false_iff,
    Option.isNone_iff_eq_none] at htokens
  have hcut : ((files.filterMap (b.tokens? t timing)).filter
      fun f => Path.precedes f.path first.path) = [] := by
    rw [List.filter_eq_nil_iff, path_of_failure? hfailure]
    intro f hf
    obtain ⟨p, hp, hfile⟩ := List.mem_filterMap.1 hf
    rw [path_of_tokens? hfile, Path.not_precedes_of_precedes (hbefore p hp)]
    exact Bool.false_ne_true
  simp only [resultsOf, List.filterMap_cons_none htokens, List.filterMap_cons_some hfailure,
    BatchResults.untilFailure, hcut, List.filterMap_nil]

/-- The files up to the first one that is not read come to what all files come to, cut off after
that failure. -/
theorem resultsOf_takenUp (hfast : b.config.failFast = true)
    (hfiles : files.Pairwise fun p q => Path.precedes p q = true) :
    b.resultsOf t timing (b.takenUp t timing files) =
      (b.resultsOf t timing files).untilFailure := by
  induction files with
  | nil => rfl
  | cons path rest ih =>
    obtain ⟨hbefore, hrest⟩ := List.pairwise_cons.1 hfiles
    rw [takenUp, hfast, Bool.and_true]
    cases hfailure : b.failure? t timing path with
    | some first =>
      rw [Option.isSome_some, if_pos rfl, untilFailure_resultsOf_cons hfailure hbefore]
    | none =>
      obtain ⟨f, hf, hcons⟩ := resultsOf_cons_of_read hfailure
      rw [Option.isSome_none, if_neg Bool.false_ne_true, hcons, hcons, ih hrest]
      refine (BatchResults.untilFailure_cons fun g hg => ?_).symm
      obtain ⟨p, hp, hfailed⟩ := List.mem_filterMap.1 hg
      rw [hf, path_of_failure? hfailed]
      exact hbefore p hp

/-! ## A worker on its own -/

/-- What holds of the only worker of a batch : with what it will take up unless it has stopped, it
takes up what a worker on its own does. -/
structure Task.Alone (b : Batch) (t : FileTree) (timing : Timing) (task : Task)
    (taken : List String) : Prop extends task.Sound b t timing taken where
  takes : taken ++ (if task.worker.stopped then [] else b.takenUp t timing task.rest) =
    b.takenUp t timing task.chunk

theorem alone_newTask (b : Batch) (t : FileTree) (timing : Timing) (chunk : List String) :
    (b.newTask chunk).Alone b t timing [] :=
  ⟨sound_newTask b t timing chunk, rfl⟩

theorem Task.Alone.work {task : Task} {taken rest : List String}
    (h : task.Alone b t timing taken) (hrest : task.rest = path :: rest)
    (running : task.worker.stopped = false) :
    (task.work b t timing path rest).Alone b t timing (taken ++ [path]) := by
  refine ⟨h.toSound.work hrest running, ?_⟩
  have hstep := isStep_step t timing path h.preferences running
  have htakes := h.takes
  rw [running, if_neg Bool.false_ne_true, hrest, takenUp] at htakes
  rw [Task.work, hstep.stopped, List.append_assoc, List.singleton_append]
  exact htakes

theorem Task.Alone.quit {task : Task} {taken : List String} (h : task.Alone b t timing taken)
    (stopped : task.worker.stopped = true) : task.quit.Alone b t timing taken := by
  refine ⟨h.toSound.quit, ?_⟩
  have htakes := h.takes
  rw [stopped, if_pos rfl] at htakes
  exact htakes

/-- A turn of the only worker keeps what holds of it. -/
theorem Task.Alone.turn {task : Task} {taken : List String} {after : List Task}
    (h : task.Alone b t timing taken) (hturn : b.Turn t timing [task] after) :
    ∃ task' taken', after = [task'] ∧ task'.chunk = task.chunk ∧
      task'.Alone b t timing taken' := by
  have honly : ∀ {front back : List Task} {task' : Task}, front ++ task' :: back = [task] →
      front = [] ∧ task' = task ∧ back = [] := by
    intro front back task' heq
    rcases List.append_eq_singleton_iff.1 heq with ⟨hfront, hback⟩ | ⟨-, hback⟩
    · exact ⟨hfront, List.cons.inj hback⟩
    · cases hback
  generalize hbefore : [task] = before at hturn
  cases hturn with
  | @work front back task' path rest rest_eq running =>
    obtain ⟨rfl, rfl, rfl⟩ := honly hbefore.symm
    exact ⟨_, _, rfl, rfl, h.work rest_eq running⟩
  | @quit front back task' stopped =>
    obtain ⟨rfl, rfl, rfl⟩ := honly hbefore.symm
    obtain ⟨other, hother, hstopped⟩ := stopped
    cases List.mem_singleton.1 hother
    exact ⟨_, _, rfl, rfl, h.quit hstopped⟩

/-- Turns of the only worker keep what holds of it. -/
theorem Task.Alone.turns {task : Task} {taken : List String} {ended : List Task}
    (h : task.Alone b t timing taken)
    (hturns : Relation.ReflTransGen (b.Turn t timing) [task] ended) :
    ∃ task' taken', ended = [task'] ∧ task'.chunk = task.chunk ∧
      task'.Alone b t timing taken' := by
  induction hturns with
  | refl => exact ⟨task, taken, rfl, rfl, h⟩
  | tail _ hturn ih =>
    obtain ⟨task', taken', rfl, hchunk, h'⟩ := ih
    obtain ⟨task'', taken'', hafter, hchunk', h''⟩ := h'.turn hturn
    exact ⟨task'', taken'', hafter, hchunk'.trans hchunk, h''⟩

/-- A batch with one worker ends with what the files come to that the worker takes up. -/
theorem eq_resultsOf_takenUp {r : BatchResults} (hone : b.workers files.length = 1)
    (hfiles : files.Pairwise fun p q => Path.precedes p q = true)
    (h : b.CanEnd t timing files r) :
    r = b.resultsOf t timing (b.takenUp t timing files) := by
  obtain ⟨ended, hturns, hrest, rfl⟩ := h
  rw [tasks, chunks_of_one_worker hone] at hturns
  obtain ⟨task, taken, rfl, hchunk, halone⟩ := (alone_newTask b t timing files).turns hturns
  have htaken : taken = b.takenUp t timing files := by
    have htakes := halone.takes
    rw [hrest task (List.mem_singleton_self _), takenUp, ite_self, List.append_nil] at htakes
    exact htakes.trans (congrArg _ hchunk)
  have hbegins := takenUp_prefix b t timing files
  have hordered := hfiles.sublist hbegins.sublist
  rw [← htaken] at hordered ⊢
  have htokens : ([task].map (·.worker)).flatMap (fun w => w.files.reverse) =
      taken.filterMap (b.tokens? t timing) := by simpa using halone.files
  have hfailures : ([task].map (·.worker)).flatMap (fun w => w.failures.reverse) =
      taken.filterMap (b.failure? t timing) := by simpa using halone.failures
  rw [BatchResults.ofWorkers, htokens, hfailures, resultsOf, Path.sortOn_of_pairwise,
    Path.sortOn_of_pairwise]
  · exact pairwise_filterMap_path path_of_failure? hordered
  · exact pairwise_filterMap_path path_of_tokens? hordered

/-! ## Two batches -/

/-- The batch with the choice to stop at the first failure or not. -/
def withFailFast (b : Batch) (stops : Bool) : Batch :=
  { b with config := { b.config with failFast := stops } }

theorem discover_withFailFast (b : Batch) (stops : Bool) (t : FileTree) (directory : String) :
    discover (b.withFailFast stops).config t directory = discover b.config t directory :=
  discover_congr (by rfl) (by rfl) t directory

theorem resultsOf_withFailFast (b : Batch) (stops : Bool) (t : FileTree) (timing : Timing)
    (files : List String) :
    (b.withFailFast stops).resultsOf t timing files = b.resultsOf t timing files := rfl

theorem value_run_withFailFast (stops : Bool)
    (hfiles : (discover b.config t directory).value = .ok files) :
    ((b.withFailFast stops).run t timing directory).value =
      .ok ((b.withFailFast stops).runFiles t timing files).value :=
  value_run (discover_withFailFast b stops t directory ▸ hfiles)

theorem value_run_withFailFast_of_error (stops : Bool) {e : BatchError}
    (herror : (discover b.config t directory).value = .error e) :
    ((b.withFailFast stops).run t timing directory).value = .error e :=
  value_run_of_error (discover_withFailFast b stops t directory ▸ herror)

/-- The batch that does not stop ends with what all files come to. -/
theorem eq_resultsOf_of_goes_on {r : BatchResults}
    (hfiles : files.Pairwise fun p q => Path.precedes p q = true)
    (h : (b.withFailFast false).CanEnd t timing files r) : r = b.resultsOf t timing files := by
  rw [eq_resultsOf_of_canEnd h hfiles (Or.inl rfl), resultsOf_withFailFast]

/-- With one worker the batch that stops ends with what all files come to, cut off after the first
failure. -/
theorem eq_untilFailure_of_stops {r : BatchResults} (hone : b.workers files.length = 1)
    (hfiles : files.Pairwise fun p q => Path.precedes p q = true)
    (h : (b.withFailFast true).CanEnd t timing files r) :
    r = (b.resultsOf t timing files).untilFailure := by
  have hone' : (b.withFailFast true).workers files.length = 1 := hone
  rw [eq_resultsOf_takenUp hone' hfiles h, resultsOf_takenUp rfl hfiles, resultsOf_withFailFast]

/-- A batch with one worker that stops at the first failure has the results of the batch that does
not, cut off after that failure. -/
theorem run_failFast (hone : ∀ files, (discover b.config t directory).value = .ok files →
    b.workers files.length = 1) :
    ((b.withFailFast true).run t timing directory).value =
        ((b.withFailFast false).run t timing directory).value.map BatchResults.untilFailure ∧
      ∀ files, (discover b.config t directory).value = .ok files → ∃ r,
        b.TokenizesEach t timing files r ∧
        ((b.withFailFast false).run t timing directory).value = .ok r ∧
        (∀ r', (b.withFailFast false).CanEnd t timing files r' → r' = r) ∧
        ∀ r', (b.withFailFast true).CanEnd t timing files r' → r' = r.untilFailure := by
  constructor
  · cases hdiscover : (discover b.config t directory).value with
    | error e =>
      rw [value_run_withFailFast_of_error true hdiscover,
        value_run_withFailFast_of_error false hdiscover]
      rfl
    | ok files =>
      have hordered := (ordered_of_discover hdiscover).2
      rw [value_run_withFailFast true hdiscover, value_run_withFailFast false hdiscover,
        eq_untilFailure_of_stops (hone files hdiscover) hordered (canEnd_runFiles _ t timing files),
        eq_resultsOf_of_goes_on hordered (canEnd_runFiles _ t timing files)]
      rfl
  · intro files hfiles
    have hordered := (ordered_of_discover hfiles).2
    refine ⟨_, tokenizesEach_resultsOf b t timing hordered, ?_,
      fun _ => eq_resultsOf_of_goes_on hordered,
      fun _ => eq_untilFailure_of_stops (hone files hfiles) hordered⟩
    rw [value_run_withFailFast false hfiles,
      eq_resultsOf_of_goes_on hordered (canEnd_runFiles _ t timing files)]

/-- A directory with a file that is too large between two files of one byte. -/
def hillTree : FileTree where
  root := .directory [("A.scala", .file (.bytes [97])), ("B.scala", .file (.zeros 10485761)),
    ("C.scala", .file (.bytes [99]))]

/-- A batch with one worker. -/
def singleBatch : Batch := { config := { maxThreads := 1 } }

theorem discover_hillTree : (discover singleBatch.config hillTree ".").value =
    .ok ["./A.scala", "./B.scala", "./C.scala"] := by
  have hnode : hillTree.node? "." = .ok hillTree.root := by cbv
  have hsort : Path.sortOn id ["./A.scala", "./B.scala", "./C.scala"] =
      ["./A.scala", "./B.scala", "./C.scala"] := Path.sortOn_of_pairwise (by decide)
  have hlist := FileTree.list_of_refusals_nil hnode rfl
  exact (value_discover hnode hlist).trans (congrArg Except.ok hsort)

theorem run_failFast_hill :
    (∀ files, (discover singleBatch.config hillTree ".").value = .ok files →
      singleBatch.workers files.length = 1) ∧
    ∃ r, singleBatch.TokenizesEach hillTree {} ["./A.scala", "./B.scala", "./C.scala"] r ∧
      ((singleBatch.withFailFast true).run hillTree {} ".").value = .ok r.untilFailure := by
  have hone : ∀ files, (discover singleBatch.config hillTree ".").value = .ok files →
      singleBatch.workers files.length = 1 := by
    intro files hfiles
    cases discover_hillTree.symm.trans hfiles
    rfl
  obtain ⟨hmap, hfiles⟩ := @run_failFast singleBatch hillTree {} "." hone
  obtain ⟨r, hr, hrun, -, -⟩ := hfiles _ discover_hillTree
  exact ⟨hone, r, hr, by rw [hmap, hrun]; rfl⟩

end Batch

end ScalaLex
