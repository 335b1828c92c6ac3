import Mathlib.Logic.Relation
import ScalaLex.Batch.Run
import ScalaLex.Proofs.ReadFiles

/-!
# Workers that take turns

The workers of a batch run at the same time. `Batch.Turn` is what one of them can do while the
others wait : take up its next file, or give up once a worker has stopped the batch, which it may
notice late. `Batch.CanEnd` are the results that the workers can end with, in whatever turns. What
`Batch.runFiles` does is one way to take turns (`canEnd_runFiles`).

What a worker has is what the files that it took up come to, each on its own (`Task.Sound`), and a
worker has stopped the batch only for a failure (`StoppedForFailure`). Both are kept by a turn. So
a batch that stops for no failure ends with what all files come to (`eq_resultsOf_of_canEnd`), and
any batch ends without failures just if all files can be read (`failures_eq_nil_iff`).
-/

namespace ScalaLex

namespace Batch

variable {b : Batch} {t : FileTree} {timing : Timing} {path : String}
  {chunk rest files : List String} {w : Worker}

/-! ## What files come to -/

/-- The scan of a file by a scanner of its own, if the file is read. -/
def tokens? (b : Batch) (t : FileTree) (timing : Timing) (path : String) : Option FileTokens :=
  match SourceFile.read b.files t timing.read path with
  | .ok file => some ⟨path, file.lineCount, Scan.ofSource b.scan timing.scan file.bytes⟩
  | .error _ => none

/-- Why a file is not read, if it is not. -/
def failure? (b : Batch) (t : FileTree) (timing : Timing) (path : String) : Option FileFailure :=
  match SourceFile.read b.files t timing.read path with
  | .ok _ => none
  | .error refusal => some ⟨path, refusal.error⟩

/-- What files come to, each on its own. -/
def resultsOf (b : Batch) (t : FileTree) (timing : Timing) (files : List String) :
    BatchResults where
  files := files.filterMap (b.tokens? t timing)
  failures := files.filterMap (b.failure? t timing)
  elapsed := timing.batch

theorem path_of_tokens? {f : FileTokens} (h : b.tokens? t timing path = some f) :
    f.path = path := by
  unfold tokens? at h
  split at h
  · cases h
    rfl
  · cases h

theorem path_of_failure? {f : FileFailure} (h : b.failure? t timing path = some f) :
    f.path = path := by
  unfold failure? at h
  split at h
  · cases h
  · cases h
    rfl

/-- A file is refused just if it is not read. -/
theorem isSome_failure? (b : Batch) (t : FileTree) (timing : Timing) (path : String) :
    (b.failure? t timing path).isSome = !(b.tokens? t timing path).isSome := by
  unfold failure? tokens?
  split <;> rfl

/-- What stands for files comes in their order. -/
theorem pairwise_filterMap_path {α : Type} {f : String → Option α} {path : α → String}
    (h : ∀ {p x}, f p = some x → path x = p)
    (hfiles : files.Pairwise fun p q => Path.precedes p q = true) :
    (files.filterMap f).Pairwise fun x y => Path.precedes (path x) (path y) = true := by
  refine hfiles.filterMap _ fun p q hpq x hx y hy => ?_
  rw [h hx, h hy]
  exact hpq

/-! ## A step of a worker -/

/-- A worker puts what a file comes to before what it has, and scans with the same preferences. -/
structure IsStep (b : Batch) (t : FileTree) (timing : Timing) (w : Worker) (path : String)
    (w' : Worker) : Prop where
  preferences : w'.scanner.preferences = w.scanner.preferences
  files : w'.files = (b.tokens? t timing path).toList ++ w.files
  failures : w'.failures = (b.failure? t timing path).toList ++ w.failures
  stopped : w'.stopped = ((b.failure? t timing path).isSome && b.config.failFast)

theorem isStep_step (t : FileTree) (timing : Timing) (path : String)
    (hpreferences : w.scanner.preferences = b.scan) (running : w.stopped = false) :
    b.IsStep t timing w path (b.step t timing w path).value := by
  rw [step, running, if_neg Bool.false_ne_true, Logged.value_within, tokenizeFile,
    Logged.value_bind, SourceFile.value_load]
  cases hread : SourceFile.read b.files t timing.read path with
  | ok file =>
    have htokens : b.tokens? t timing path =
        some ⟨path, file.lineCount, Scan.ofSource b.scan timing.scan file.bytes⟩ := by
      rw [tokens?, hread]
    have hfailure : b.failure? t timing path = none := by rw [failure?, hread]
    refine ⟨rfl, ?_, ?_, ?_⟩
    · rw [htokens, ← hpreferences]
      rfl
    · rw [hfailure]
      rfl
    · rw [hfailure]
      exact running
  | error refusal =>
    have htokens : b.tokens? t timing path = none := by rw [tokens?, hread]
    have hfailure : b.failure? t timing path = some ⟨path, refusal.error⟩ := by
      rw [failure?, hread]
    refine ⟨rfl, ?_, ?_, ?_⟩
    · rw [htokens]
      rfl
    · rw [hfailure]
      rfl
    · rw [hfailure]
      change (w.stopped || b.config.failFast) = (true && b.config.failFast)
      rw [running, Bool.false_or, Bool.true_and]

/-! ## Turns -/

/-- A worker, the files that it was dealt, and those that it has still to take up. -/
structure Task where
  chunk : List String
  rest : List String
  worker : Worker

/-- The worker takes up a file. -/
def Task.work (b : Batch) (t : FileTree) (timing : Timing) (task : Task) (path : String)
    (rest : List String) : Task :=
  { task with rest, worker := (b.step t timing task.worker path).value }

/-- The worker gives up. -/
def Task.quit (task : Task) : Task :=
  { task with rest := [], worker := { task.worker with stopped := true } }

/-- A chunk that no file has been taken up of. -/
def newTask (b : Batch) (chunk : List String) : Task := ⟨chunk, chunk, b.newWorker false⟩

/-- The tasks of a batch before any turn. -/
def tasks (b : Batch) (files : List String) : List Task :=
  (chunks (b.chunkSize files.length) files).map b.newTask

/-- What a worker can do next. It knows if it has stopped the batch itself, and may know if another
worker has. -/
inductive Turn (b : Batch) (t : FileTree) (timing : Timing) : List Task → List Task → Prop
  | work {before after : List Task} {task : Task} {path : String} {rest : List String}
      (rest_eq : task.rest = path :: rest) (running : task.worker.stopped = false) :
      Turn b t timing (before ++ task :: after) (before ++ task.work b t timing path rest :: after)
  | quit {before after : List Task} {task : Task}
      (stopped : ∃ other ∈ before ++ task :: after, other.worker.stopped = true) :
      Turn b t timing (before ++ task :: after) (before ++ task.quit :: after)

/-- Results that the workers can end with. -/
def CanEnd (b : Batch) (t : FileTree) (timing : Timing) (files : List String)
    (r : BatchResults) : Prop :=
  ∃ ended, Relation.ReflTransGen (b.Turn t timing) (b.tasks files) ended ∧
    (∀ task ∈ ended, task.rest = []) ∧ r = .ofWorkers timing.batch (ended.map (·.worker))

/-! ## What turns keep -/

/-- A worker has what the first files of its chunk come to, and the others are still to be taken
up unless it has given up. -/
structure Task.Sound (b : Batch) (t : FileTree) (timing : Timing) (task : Task)
    (taken : List String) : Prop where
  preferences : task.worker.scanner.preferences = b.scan
  begins : taken ++ task.rest <+: task.chunk
  taken_eq : task.worker.stopped = false → taken ++ task.rest = task.chunk
  files : task.worker.files.reverse = taken.filterMap (b.tokens? t timing)
  failures : task.worker.failures.reverse = taken.filterMap (b.failure? t timing)

theorem sound_newTask (b : Batch) (t : FileTree) (timing : Timing) (chunk : List String) :
    (b.newTask chunk).Sound b t timing [] :=
  ⟨rfl, List.prefix_rfl, fun _ => rfl, rfl, rfl⟩

theorem Task.Sound.work {task : Task} {taken : List String} (h : task.Sound b t timing taken)
    (hrest : task.rest = path :: rest) (running : task.worker.stopped = false) :
    (task.work b t timing path rest).Sound b t timing (taken ++ [path]) := by
  have hstep := isStep_step t timing path h.preferences running
  have hsplit : taken ++ [path] ++ rest = taken ++ task.rest := by
    rw [hrest, List.append_assoc, List.singleton_append]
  refine ⟨hstep.preferences.trans h.preferences, ?_, fun _ => ?_, ?_, ?_⟩
  · exact hsplit ▸ h.begins
  · exact hsplit.trans (h.taken_eq running)
  · rw [Task.work, hstep.files, List.reverse_append, h.files, List.filterMap_append]
    cases hfile : b.tokens? t timing path <;> simp [hfile]
  · rw [Task.work, hstep.failures, List.reverse_append, h.failures, List.filterMap_append]
    cases hfailure : b.failure? t timing path <;> simp [hfailure]

theorem Task.Sound.quit {task : Task} {taken : List String} (h : task.Sound b t timing taken) :
    task.quit.Sound b t timing taken := by
  refine ⟨h.preferences, ?_, (fun hstopped => nomatch hstopped), h.files, h.failures⟩
  rw [Task.quit, List.append_nil]
  exact (List.prefix_append _ _).trans h.begins

/-- A worker has stopped the batch only if it may, and for a failure. -/
def StoppedForFailure (b : Batch) (tasks : List Task) : Prop :=
  (∃ task ∈ tasks, task.worker.stopped = true) →
    b.config.failFast = true ∧ ∃ task ∈ tasks, task.worker.failures ≠ []

/-- One task takes the place of another, with no failure lost. -/
theorem StoppedForFailure.replace {before after : List Task} {task task' : Task}
    (h : b.StoppedForFailure (before ++ task :: after))
    (hfailures : task.worker.failures ≠ [] → task'.worker.failures ≠ [])
    (hstopped : task'.worker.stopped = true →
      (b.config.failFast = true ∧ task'.worker.failures ≠ []) ∨
        ∃ other ∈ before ++ task :: after, other.worker.stopped = true) :
    b.StoppedForFailure (before ++ task' :: after) := by
  rintro ⟨other, hother, hother'⟩
  have hself : task' ∈ before ++ task' :: after := by simp
  -- a failure of the task that goes is one of the task that comes
  have hcause : (∃ other ∈ before ++ task :: after, other.worker.stopped = true) →
      b.config.failFast = true ∧ ∃ task ∈ before ++ task' :: after, task.worker.failures ≠ [] := by
    intro hany
    obtain ⟨hfast, failed, hmem, hne⟩ := h hany
    refine ⟨hfast, ?_⟩
    rcases List.mem_append.1 hmem with hmem | hmem
    · exact ⟨failed, List.mem_append_left _ hmem, hne⟩
    rcases List.mem_cons.1 hmem with rfl | hmem
    · exact ⟨task', hself, hfailures hne⟩
    · exact ⟨failed, List.mem_append_right _ (List.mem_cons_of_mem _ hmem), hne⟩
  rcases List.mem_append.1 hother with hmem | hmem
  · exact hcause ⟨other, List.mem_append_left _ hmem, hother'⟩
  rcases List.mem_cons.1 hmem with rfl | hmem
  · rcases hstopped hother' with ⟨hfast, hne⟩ | hany
    · exact ⟨hfast, other, hself, hne⟩
    · exact hcause hany
  · exact hcause ⟨other, List.mem_append_right _ (List.mem_cons_of_mem _ hmem), hother'⟩

/-- What holds of the tasks of a batch between turns. -/
structure Between (b : Batch) (t : FileTree) (timing : Timing) (files : List String)
    (tasks : List Task) : Prop where
  chunks_eq : tasks.map (·.chunk) = chunks (b.chunkSize files.length) files
  sound : ∀ task ∈ tasks, ∃ taken, task.Sound b t timing taken
  stopped : b.StoppedForFailure tasks

theorem between_tasks (b : Batch) (t : FileTree) (timing : Timing) (files : List String) :
    b.Between t timing files (b.tasks files) where
  chunks_eq := by simp [tasks, newTask, Function.comp_def]
  sound := by
    intro task htask
    obtain ⟨chunk, -, rfl⟩ := List.mem_map.1 htask
    exact ⟨[], sound_newTask b t timing chunk⟩
  stopped := by
    rintro ⟨task, htask, hstopped⟩
    obtain ⟨chunk, -, rfl⟩ := List.mem_map.1 htask
    cases hstopped

/-- A turn keeps what holds between turns. -/
theorem Between.turn {before after : List Task} (h : b.Between t timing files before)
    (hturn : b.Turn t timing before after) : b.Between t timing files after := by
  cases hturn with
  | @work before after task path rest rest_eq running =>
    obtain ⟨taken, htaken⟩ := h.sound task (by simp)
    refine ⟨?_, ?_, ?_⟩
    · simpa [Task.work] using h.chunks_eq
    · have hothers := h.sound
      simp only [List.forall_mem_append, List.forall_mem_cons] at hothers ⊢
      exact ⟨hothers.1, ⟨_, htaken.work rest_eq running⟩, hothers.2.2⟩
    · have hstep := isStep_step t timing path htaken.preferences running
      refine h.stopped.replace (fun hne => ?_) fun hstopped => Or.inl ?_
      · rw [Task.work, hstep.failures]
        exact List.append_ne_nil_of_right_ne_nil _ hne
      · rw [Task.work, hstep.stopped, Bool.and_eq_true, Option.isSome_iff_exists] at hstopped
        obtain ⟨⟨failure, hfailure⟩, hfast⟩ := hstopped
        refine ⟨hfast, ?_⟩
        rw [Task.work, hstep.failures, hfailure]
        exact List.cons_ne_nil _ _
  | @quit before after task stopped =>
    obtain ⟨taken, htaken⟩ := h.sound task (by simp)
    refine ⟨?_, ?_, ?_⟩
    · simpa [Task.quit] using h.chunks_eq
    · have hothers := h.sound
      simp only [List.forall_mem_append, List.forall_mem_cons] at hothers ⊢
      exact ⟨hothers.1, ⟨_, htaken.quit⟩, hothers.2.2⟩
    · exact h.stopped.replace id fun _ => Or.inr stopped

/-- Turns keep what holds between turns. -/
theorem Between.turns {tasks ended : List Task} (h : b.Between t timing files tasks)
    (hturns : Relation.ReflTransGen (b.Turn t timing) tasks ended) :
    b.Between t timing files ended := by
  induction hturns with
  | refl => exact h
  | tail _ hturn ih => exact ih.turn hturn

/-! ## Results -/

/-- A task that has come to its end. -/
theorem Task.Sound.ended {task : Task} {taken : List String} (h : task.Sound b t timing taken)
    (hrest : task.rest = []) : taken <+: task.chunk ∧
      (task.worker.stopped = false → taken = task.chunk) := by
  have hbegins := h.begins
  have heq := h.taken_eq
  rw [hrest, List.append_nil] at hbegins heq
  exact ⟨hbegins, heq⟩

theorem mem_of_mem_chunk {ended : List Task} (h : b.Between t timing files ended) {task : Task}
    (htask : task ∈ ended) (hpath : path ∈ task.chunk) : path ∈ files := by
  rw [← flatten_chunks (b.chunkSize files.length) files, ← h.chunks_eq]
  exact List.mem_flatten.2 ⟨_, List.mem_map_of_mem htask, hpath⟩

theorem exists_task_of_mem {ended : List Task} (h : b.Between t timing files ended)
    (hpath : path ∈ files) : ∃ task ∈ ended, path ∈ task.chunk := by
  rw [← flatten_chunks (b.chunkSize files.length) files, ← h.chunks_eq] at hpath
  obtain ⟨chunk, hchunk, hpath⟩ := List.mem_flatten.1 hpath
  obtain ⟨task, htask, rfl⟩ := List.mem_map.1 hchunk
  exact ⟨task, htask, hpath⟩

theorem failures_ofWorkers_eq_nil_iff {elapsed : Span} {ws : List Worker} :
    (BatchResults.ofWorkers elapsed ws).failures = [] ↔ ∀ w ∈ ws, w.failures = [] := by
  have hperm := Path.sortOn_perm (·.path) (ws.flatMap fun w => w.failures.reverse)
  have hnil : (BatchResults.ofWorkers elapsed ws).failures = [] ↔
      (ws.flatMap fun w => w.failures.reverse) = [] := by
    rw [BatchResults.ofWorkers, ← List.perm_nil, hperm.congr_left, List.perm_nil]
  rw [hnil]
  simp

/-- In whatever turns, a failure of a batch is one of a file. -/
theorem exists_of_mem_failures {r : BatchResults} (h : b.CanEnd t timing files r)
    {f : FileFailure} (hf : f ∈ r.failures) :
    ∃ path ∈ files, b.failure? t timing path = some f := by
  obtain ⟨ended, hturns, -, rfl⟩ := h
  have hended := (between_tasks b t timing files).turns hturns
  rw [BatchResults.ofWorkers, (Path.sortOn_perm _ _).mem_iff, List.mem_flatMap] at hf
  obtain ⟨w, hw, hf⟩ := hf
  obtain ⟨task, htask, rfl⟩ := List.mem_map.1 hw
  obtain ⟨taken, htaken⟩ := hended.sound task htask
  rw [htaken.failures] at hf
  obtain ⟨path, hpath, hf⟩ := List.mem_filterMap.1 hf
  exact ⟨path, mem_of_mem_chunk hended htask
    (htaken.begins.subset (List.mem_append_left _ hpath)), hf⟩

/-- What workers have of their chunks is, joined, what they have of all files. -/
theorem flatMap_worker_eq {α : Type} {ended : List Task} {f : String → Option α}
    {g : Worker → List α} (h : ∀ task ∈ ended, g task.worker = task.chunk.filterMap f) :
    (ended.map (·.worker)).flatMap g = (ended.map (·.chunk)).flatten.filterMap f := by
  induction ended with
  | nil => rfl
  | cons task ended ih =>
    obtain ⟨htask, hended⟩ := List.forall_mem_cons.1 h
    rw [List.map_cons, List.flatMap_cons, List.map_cons, List.flatten_cons, List.filterMap_append,
      htask, ih hended]

/-- Workers that came to the end of their chunks have what the files come to. -/
theorem ofWorkers_eq {ended : List Task} (h : b.Between t timing files ended)
    (hrest : ∀ task ∈ ended, task.rest = [])
    (hrunning : ∀ task ∈ ended, task.worker.stopped = false)
    (hfiles : files.Pairwise fun p q => Path.precedes p q = true) :
    .ofWorkers timing.batch (ended.map (·.worker)) = b.resultsOf t timing files := by
  have hflatten : (ended.map (·.chunk)).flatten = files := by
    rw [h.chunks_eq, flatten_chunks]
  have hchunk : ∀ task ∈ ended, ∃ taken, task.Sound b t timing taken ∧ taken = task.chunk := by
    intro task htask
    obtain ⟨taken, htaken⟩ := h.sound task htask
    exact ⟨taken, htaken, (htaken.ended (hrest task htask)).2 (hrunning task htask)⟩
  have htokens : (ended.map (·.worker)).flatMap (fun w => w.files.reverse) =
      files.filterMap (b.tokens? t timing) := by
    rw [← hflatten]
    refine flatMap_worker_eq fun task htask => ?_
    obtain ⟨taken, htaken, rfl⟩ := hchunk task htask
    exact htaken.files
  have hfailures : (ended.map (·.worker)).flatMap (fun w => w.failures.reverse) =
      files.filterMap (b.failure? t timing) := by
    rw [← hflatten]
    refine flatMap_worker_eq fun task htask => ?_
    obtain ⟨taken, htaken, rfl⟩ := hchunk task htask
    exact htaken.failures
  rw [BatchResults.ofWorkers, htokens, hfailures, resultsOf, Path.sortOn_of_pairwise,
    Path.sortOn_of_pairwise]
  · exact pairwise_filterMap_path path_of_failure? hfiles
  · exact pairwise_filterMap_path path_of_tokens? hfiles

/-- In whatever turns, a batch ends without failures just if every file can be read. -/
theorem failures_eq_nil_iff {r : BatchResults} (h : b.CanEnd t timing files r) :
    r.failures = [] ↔ ∀ path ∈ files, b.failure? t timing path = none := by
  obtain ⟨ended, hturns, hrest, rfl⟩ := h
  have hended := (between_tasks b t timing files).turns hturns
  rw [failures_ofWorkers_eq_nil_iff, List.forall_mem_map]
  constructor
  · intro hnone path hpath
    -- with no failure no worker has stopped, so each has come to the end of its chunk
    have hrunning : ∀ task ∈ ended, task.worker.stopped = false := by
      intro task htask
      refine Bool.eq_false_iff.2 fun hstopped => ?_
      obtain ⟨-, failed, hfailed, hne⟩ := hended.stopped ⟨task, htask, hstopped⟩
      exact hne (hnone failed hfailed)
    obtain ⟨task, htask, hpath⟩ := exists_task_of_mem hended hpath
    obtain ⟨taken, htaken⟩ := hended.sound task htask
    rw [← (htaken.ended (hrest task htask)).2 (hrunning task htask)] at hpath
    have hfailures := htaken.failures
    rw [hnone task htask, List.reverse_nil] at hfailures
    exact List.filterMap_eq_nil_iff.1 hfailures.symm path hpath
  · intro hnone task htask
    obtain ⟨taken, htaken⟩ := hended.sound task htask
    have hfailures : taken.filterMap (b.failure? t timing) = [] := by
      refine List.filterMap_eq_nil_iff.2 fun path hpath => hnone path ?_
      exact mem_of_mem_chunk hended htask
        ((htaken.ended (hrest task htask)).1.subset hpath)
    rw [← htaken.failures] at hfailures
    exact List.reverse_eq_nil_iff.1 hfailures

/-- In whatever turns, a batch that does not stop for failures, or that meets none, ends with what
its files come to. -/
theorem eq_resultsOf_of_canEnd {r : BatchResults} (h : b.CanEnd t timing files r)
    (hfiles : files.Pairwise fun p q => Path.precedes p q = true)
    (hgoes : b.config.failFast = false ∨ ∀ path ∈ files, b.failure? t timing path = none) :
    r = b.resultsOf t timing files := by
  have hnone := failures_eq_nil_iff h
  obtain ⟨ended, hturns, hrest, rfl⟩ := h
  have hended := (between_tasks b t timing files).turns hturns
  refine ofWorkers_eq hended hrest (fun task htask => ?_) hfiles
  refine Bool.eq_false_iff.2 fun hstopped => ?_
  obtain ⟨hfast, failed, hfailed, hne⟩ := hended.stopped ⟨task, htask, hstopped⟩
  rcases hgoes with hgoes | hgoes
  · rw [hgoes] at hfast
    cases hfast
  · exact hne (failures_ofWorkers_eq_nil_iff.1 (hnone.2 hgoes) _ (List.mem_map_of_mem hfailed))

/-! ## One worker after the other -/

theorem quit_of_stopped (hstopped : w.stopped = true) (chunk rest : List String) :
    Task.quit ⟨chunk, rest, w⟩ = ⟨chunk, [], w⟩ := by
  cases w
  cases hstopped
  rfl

theorem value_foldlM_step_of_stopped (hstopped : w.stopped = true) (rest : List String) :
    (rest.foldlM (b.step t timing) w).value = w := by
  induction rest with
  | nil => rfl
  | cons path rest ih =>
    rw [List.foldlM_cons, Logged.value_bind, step, if_pos hstopped, Logged.value_pure, ih]

/-- A worker that is let work until it has stopped or has taken up its whole chunk. -/
theorem turns_foldlM (before after : List Task) (chunk rest : List String) (w : Worker)
    (running : w.stopped = false) :
    Relation.ReflTransGen (b.Turn t timing) (before ++ ⟨chunk, rest, w⟩ :: after)
      (before ++ ⟨chunk, [], (rest.foldlM (b.step t timing) w).value⟩ :: after) := by
  induction rest generalizing w with
  | nil => exact .refl
  | cons path rest ih =>
    have hwork : b.Turn t timing (before ++ ⟨chunk, path :: rest, w⟩ :: after)
        (before ++ ⟨chunk, rest, (b.step t timing w path).value⟩ :: after) :=
      .work rfl running
    rw [List.foldlM_cons, Logged.value_bind]
    refine .head hwork ?_
    cases hstopped : (b.step t timing w path).value.stopped with
    | false => exact ih _ hstopped
    | true =>
      rw [value_foldlM_step_of_stopped hstopped]
      refine .single ?_
      rw [← quit_of_stopped hstopped]
      exact .quit ⟨_, List.mem_append_right _ List.mem_cons_self, hstopped⟩

theorem length_runChunks (b : Batch) (t : FileTree) (timing : Timing) (stopped : Bool)
    (cs : List (List String)) : (b.runChunks t timing stopped cs).value.length = cs.length := by
  induction cs generalizing stopped with
  | nil => rfl
  | cons chunk cs ih => simp [runChunks, ih]

/-- Workers that are let work one after the other. -/
theorem turns_runChunks (b : Batch) (t : FileTree) (timing : Timing) (before : List Task)
    (stopped : Bool) (cs : List (List String))
    (hstopped : stopped = true → ∃ task ∈ before, task.worker.stopped = true) :
    Relation.ReflTransGen (b.Turn t timing) (before ++ cs.map b.newTask)
      (before ++ (cs.zip (b.runChunks t timing stopped cs).value).map fun x => ⟨x.1, [], x.2⟩) := by
  induction cs generalizing before stopped with
  | nil => exact .refl
  | cons chunk cs ih =>
    have hchunk : Relation.ReflTransGen (b.Turn t timing)
        (before ++ b.newTask chunk :: cs.map b.newTask)
        (before ++ ⟨chunk, [], (b.runChunk t timing stopped chunk).value⟩ ::
          cs.map b.newTask) := by
      cases stopped with
      | false => exact turns_foldlM _ _ _ _ _ rfl
      | true =>
        -- a worker that starts after a stop gives up at once
        obtain ⟨task, htask, htask'⟩ := hstopped rfl
        rw [runChunk, value_foldlM_step_of_stopped rfl]
        exact .single (.quit ⟨task, List.mem_append_left _ htask, htask'⟩)
    refine hchunk.trans ?_
    have hrest := ih (before ++ [⟨chunk, [], (b.runChunk t timing stopped chunk).value⟩])
      (b.runChunk t timing stopped chunk).value.stopped
      fun h => ⟨_, List.mem_append_right _ (List.mem_singleton_self _), h⟩
    simpa [runChunks] using hrest

/-- One worker after the other is one way to take turns. -/
theorem canEnd_runFiles (b : Batch) (t : FileTree) (timing : Timing) (files : List String) :
    b.CanEnd t timing files (b.runFiles t timing files).value := by
  have hturns := turns_runChunks b t timing [] false (chunks (b.chunkSize files.length) files)
    fun h => nomatch h
  refine ⟨_, hturns, fun task htask => ?_, ?_⟩
  · rw [List.nil_append, List.mem_map] at htask
    obtain ⟨x, -, rfl⟩ := htask
    rfl
  · rw [List.nil_append, List.map_map, runFiles, Logged.value_bind]
    have hworkers := List.map_snd_zip (Nat.le_of_eq (length_runChunks b t timing false
      (chunks (b.chunkSize files.length) files)))
    exact congrArg (BatchResults.ofWorkers timing.batch) hworkers.symm

/-- A single worker is dealt all files. -/
theorem chunks_of_one_worker (hone : b.workers files.length = 1) :
    chunks (b.chunkSize files.length) files = [files] := by
  cases files with
  | nil => simp [workers] at hone
  | cons path rest =>
    rw [chunkSize, hone, Nat.div_one, Nat.add_sub_cancel, chunks, List.length_cons,
      Nat.add_sub_cancel, List.take_length, List.drop_length, chunks]

/-- A worker on its own that stops the batch at its first file shows none. -/
theorem files_runFiles_of_head_failure (rest : List String) (hfast : b.config.failFast = true)
    (hone : b.workers (path :: rest).length = 1)
    (hfailure : (b.failure? t timing path).isSome = true) :
    (b.runFiles t timing (path :: rest)).value.files = [] := by
  have hstep : b.IsStep t timing (b.newWorker false) path
      (b.step t timing (b.newWorker false) path).value :=
    isStep_step t timing path rfl rfl
  have htokens : b.tokens? t timing path = none := by
    rw [isSome_failure?] at hfailure
    simpa using hfailure
  have hstopped : (b.step t timing (b.newWorker false) path).value.stopped = true := by
    rw [hstep.stopped, hfailure, hfast]
    rfl
  have hfiles : (b.step t timing (b.newWorker false) path).value.files = [] := by
    rw [hstep.files, htokens]
    rfl
  simp only [runFiles, chunks_of_one_worker hone, runChunks, runChunk, Logged.value_bind,
    List.foldlM_cons, value_foldlM_step_of_stopped hstopped]
  simp [BatchResults.ofWorkers, Path.sortOn, hfiles]

end Batch

end ScalaLex
