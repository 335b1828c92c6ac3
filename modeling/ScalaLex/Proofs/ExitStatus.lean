import ScalaLex.Proofs.Batches
import ScalaLex.Proofs.ShownFiles

/-!
# The exit status

A program that is not asked for help ends with 2 if its options are not read or its preferences
are not loaded (`CommandLine.Refused`), as its log always starts (`Service.value_start`). It ends
with 0 if what the path leads to is tokenized as a whole (`CommandLine.Succeeds`), with 1 otherwise
(`CommandLine.status_runInput`).

Of the options only those that choose the preferences file and the depth of a search have a part
in this (`CommandLine.Succeeds.congr`). For a directory, what the workers end with has the same
status in whatever turns they work, and shows every file that is read unless a failure stops the
batch (`CommandLine.answers_batchAnswer`).
-/

namespace ScalaLex

namespace Service

/-- The codes and words that the program relies on are there, so the log starts. -/
theorem value_start (p : LogPreferences) : (start none p).value = .ok (ofPreferences p) := by
  have hcodes : (requiredCodes.find? fun c => !c.isRegistered) = none := by decide
  simp only [start, hcodes]
  rfl

theorem value_startScanning : startScanning.value = .ok () := by
  have hcodes : (scanCodes.find? fun c => !c.isRegistered) = none := by decide
  have hwords : ReservedWords.declared.isEmpty = false := by decide
  simp only [startScanning, hcodes, hwords]
  rfl

end Service

namespace CommandLine

variable {i : Invocation} {o o' : Options} {p p' : Preferences} {path : String}
  {files : List String} {r : BatchResults}

/-! ## What a status stands for -/

/-- The options of an invocation are read, and the preferences that they lead to. -/
structure Starts (i : Invocation) (o : Options) (p : Preferences) : Prop where
  options : (Options.parse i.args.tail).2 = .ok o
  preferences : ∃ loaded, preferences i o = .ok loaded ∧ p = o.applyTo loaded

/-- The options of an invocation are not read, or the preferences file that they name is not
loaded. -/
def Refused (i : Invocation) : Prop :=
  (∃ e, (Options.parse i.args.tail).2 = .error e) ∨
    ∃ o file e, (Options.parse i.args.tail).2 = .ok o ∧ o.configFile? = some file ∧
      Preferences.load i.environment i.tree file = .error e

/-- The file at a path is read. -/
def Accepts (i : Invocation) (p : Preferences) (path : String) : Prop :=
  ∃ file, SourceFile.read p.files i.tree i.timing.read path = .ok file

/-- A path leads to a file that is read, or to a directory in which files are found that are all
read. -/
def Succeeds (i : Invocation) (p : Preferences) (path : String) : Prop :=
  (i.tree.isFile path = true ∧ Accepts i p path) ∨
    (i.tree.isDirectory path = true ∧ ∃ files,
      (discover p.batch.clamped i.tree path).value = .ok files ∧ ∀ file ∈ files, Accepts i p file)

theorem starts_or_refused (i : Invocation) : (∃ o p, Starts i o p) ∨ Refused i := by
  cases hoptions : (Options.parse i.args.tail).2 with
  | error e => exact Or.inr (Or.inl ⟨e, hoptions⟩)
  | ok o =>
    cases hpreferences : preferences i o with
    | ok loaded => exact Or.inl ⟨o, _, hoptions, loaded, hpreferences, rfl⟩
    | error e =>
      unfold preferences at hpreferences
      split at hpreferences
      · rename_i file hfile
        exact Or.inr (Or.inr ⟨o, file, e, hoptions, hfile, hpreferences⟩)
      · cases hpreferences

/-! ## The status of a run -/

/-- The log starts, so a program ends as its input is answered. -/
theorem runWith_eq (i : Invocation) (p : Preferences) (o : Options) (path : String) :
    (runWith i p o path).status = (runInput i p o path).value.status ∧
      (runWith i p o path).out = (runInput i p o path).value.out := by
  simp only [runWith, Logged.value_bind, Service.value_start, Service.value_startScanning]
  exact ⟨rfl, rfl⟩

theorem run_of_starts (h : Starts i o p) (hhead : i.args.head? = some path)
    (hhelp : path ≠ "--help") : (run i).status = (runInput i p o path).value.status ∧
      (run i).out = (runInput i p o path).value.out := by
  obtain ⟨args, hargs⟩ := List.head?_eq_some_iff.1 hhead
  obtain ⟨loaded, hloaded, rfl⟩ := h.preferences
  have hoptions := h.options
  rw [hargs, List.tail_cons] at hoptions
  simp only [run, hargs, beq_iff_eq, if_neg hhelp, runPath, hoptions, hloaded]
  exact runWith_eq i (o.applyTo loaded) o path

theorem not_refused_of_nil (h : i.args = []) : ¬ Refused i := by
  have hoptions : (Options.parse i.args.tail).2 = .ok {} := by rw [h]; rfl
  rintro (⟨e, he⟩ | ⟨o, file, e, ho, hfile, -⟩)
  · cases hoptions.symm.trans he
  · cases hoptions.symm.trans ho
    cases hfile

theorem status_of_refused (h : Refused i) (hhead : i.args.head? ≠ some "--help") :
    (run i).status = 2 := by
  cases hargs : i.args with
  | nil => exact absurd h (not_refused_of_nil hargs)
  | cons path args =>
    have hhelp : path ≠ "--help" := by
      rintro rfl
      rw [hargs] at hhead
      exact hhead rfl
    rcases h with ⟨e, hoptions⟩ | ⟨o, file, e, hoptions, hfile, hload⟩
    · rw [hargs, List.tail_cons] at hoptions
      simp only [run, hargs, beq_iff_eq, if_neg hhelp, runPath, hoptions]
    · rw [hargs, List.tail_cons] at hoptions
      have hpreferences : preferences i o = .error e := by rw [preferences, hfile]; exact hload
      simp only [run, hargs, beq_iff_eq, if_neg hhelp, runPath, hoptions, hpreferences]

/-! ## Files -/

theorem status_runFile (i : Invocation) (p : Preferences) (o : Options) (path : String) :
    (runFile i p o path).value.status ≤ 1 ∧
      ((runFile i p o path).value.status = 0 ↔ Accepts i p path) := by
  rw [runFile, Logged.value_bind, SourceFile.value_load, Accepts]
  cases SourceFile.read p.files i.tree i.timing.read path with
  | ok file => exact ⟨Nat.zero_le _, iff_of_true rfl ⟨file, rfl⟩⟩
  | error refusal => exact ⟨Nat.le_refl _, iff_of_false Nat.one_ne_zero fun ⟨_, h⟩ => nomatch h⟩

/-! ## Directories -/

theorem failure?_eq_none_iff :
    (batchOf p).failure? i.tree i.timing path = none ↔ Accepts i p path := by
  rw [Batch.failure?, Accepts, batchOf]
  cases SourceFile.read p.files i.tree i.timing.read path with
  | ok file => exact iff_of_true rfl ⟨file, rfl⟩
  | error refusal => simp

/-- A status and an output for the files found in a directory : the status is 0 if all are read, and
1 otherwise; with 0 all files are shown, and those that are read are shown in any case unless a
failure stops the batch. -/
structure Answers (i : Invocation) (o : Options) (p : Preferences) (files : List String)
    (status : Nat) (out : String) : Prop where
  le_one : status ≤ 1
  eq_zero_iff : status = 0 ↔ ∀ file ∈ files, Accepts i p file
  shows_all : status = 0 → ∀ file ∈ files, ∃ f,
    (batchOf p).tokens? i.tree i.timing file = some f ∧ shownFile o f <:+: out.toList
  shows_accepted : p.batch.failFast = false → ∀ file ∈ files, Accepts i p file → ∃ f,
    (batchOf p).tokens? i.tree i.timing file = some f ∧ shownFile o f <:+: out.toList

theorem exists_tokens?_of_accepts (h : Accepts i p path) :
    ∃ f, (batchOf p).tokens? i.tree i.timing path = some f := by
  obtain ⟨file, hfile⟩ := h
  have hread : SourceFile.read (batchOf p).files i.tree i.timing.read path = .ok file := hfile
  exact ⟨_, by rw [Batch.tokens?, hread]⟩

/-- In whatever turns the workers end, what is written about a directory answers for its files. -/
theorem answers_batchAnswer (hfiles : files.Pairwise fun p q => Path.precedes p q = true)
    (h : (batchOf p).CanEnd i.tree i.timing files r) :
    Answers i o p files (batchAnswer o i.now r).status (batchAnswer o i.now r).out := by
  have hfailures : r.failures = [] ↔ ∀ file ∈ files, Accepts i p file := by
    rw [Batch.failures_eq_nil_iff h]
    exact forall₂_congr fun _ _ => failure?_eq_none_iff
  have hzero : (batchAnswer o i.now r).status = 0 ↔ r.failures = [] := by
    rw [batchAnswer, ← List.isEmpty_iff]
    cases r.failures.isEmpty <;> simp
  -- one argument for both : a batch that is not stopped has the tokens of every file that is read
  have hshows : (batchOf p).config.failFast = false ∨
      (∀ file ∈ files, (batchOf p).failure? i.tree i.timing file = none) →
      ∀ file ∈ files, Accepts i p file → ∃ f,
        (batchOf p).tokens? i.tree i.timing file = some f ∧
          shownFile o f <:+: (batchAnswer o i.now r).out.toList := by
    intro hgoes file hfile haccepts
    obtain ⟨f, hf⟩ := exists_tokens?_of_accepts haccepts
    refine ⟨f, hf, shows_batchText o i.now ?_⟩
    rw [Batch.eq_resultsOf_of_canEnd h hfiles hgoes]
    exact List.mem_filterMap.2 ⟨file, hfile, hf⟩
  refine ⟨?_, hzero.trans hfailures, fun hstatus file hfile => ?_,
    fun hfast => hshows (Or.inl hfast)⟩
  · simp only [batchAnswer]
    split <;> omega
  · have haccepts := (hzero.trans hfailures).1 hstatus
    exact hshows (Or.inr fun file hfile => failure?_eq_none_iff.2 (haccepts file hfile)) file hfile
      (haccepts file hfile)

theorem value_runDirectory (hfiles : (discover p.batch.clamped i.tree path).value = .ok files) :
    (runDirectory i p o path).value =
      batchAnswer o i.now ((batchOf p).runFiles i.tree i.timing files).value := by
  have hrun : ((batchOf p).run i.tree i.timing path).value =
      .ok ((batchOf p).runFiles i.tree i.timing files).value := Batch.value_run hfiles
  rw [runDirectory, Logged.value_bind, hrun]
  rfl

theorem status_runDirectory_of_error {e : BatchError}
    (he : (discover p.batch.clamped i.tree path).value = .error e) :
    (runDirectory i p o path).value.status = 1 := by
  have hrun : ((batchOf p).run i.tree i.timing path).value = .error e :=
    Batch.value_run_of_error he
  rw [runDirectory, Logged.value_bind, hrun]
  rfl

theorem answers_runDirectory (hfiles : (discover p.batch.clamped i.tree path).value = .ok files) :
    Answers i o p files (runDirectory i p o path).value.status
      (runDirectory i p o path).value.out := by
  rw [value_runDirectory hfiles]
  exact answers_batchAnswer (ordered_of_discover hfiles).2 (Batch.canEnd_runFiles _ _ _ _)

theorem status_runDirectory (i : Invocation) (p : Preferences) (o : Options) (path : String) :
    (runDirectory i p o path).value.status ≤ 1 ∧
      ((runDirectory i p o path).value.status = 0 ↔ ∃ files,
        (discover p.batch.clamped i.tree path).value = .ok files ∧
          ∀ file ∈ files, Accepts i p file) := by
  cases hdiscover : (discover p.batch.clamped i.tree path).value with
  | error e =>
    rw [status_runDirectory_of_error hdiscover]
    exact ⟨Nat.le_refl _, iff_of_false Nat.one_ne_zero fun ⟨_, h, _⟩ => nomatch h⟩
  | ok files =>
    have hanswers := answers_runDirectory (o := o) hdiscover
    refine ⟨hanswers.le_one, hanswers.eq_zero_iff.trans ⟨fun h => ⟨files, rfl, h⟩, ?_⟩⟩
    rintro ⟨files', h, haccepts⟩
    cases h
    exact haccepts

/-! ## The input -/

theorem isDirectory_eq_false_of_isFile {t : FileTree} (h : t.isFile path = true) :
    t.isDirectory path = false := by
  unfold FileTree.isFile at h
  unfold FileTree.isDirectory
  split
  · rename_i node hnode
    rw [hnode] at h
    cases node with
    | directory entries => cases h
    | file content => rfl
    | link target => rfl
  · rfl

theorem status_runInput (i : Invocation) (p : Preferences) (o : Options) (path : String) :
    (runInput i p o path).value.status ≤ 1 ∧
      ((runInput i p o path).value.status = 0 ↔ Succeeds i p path) := by
  obtain ⟨hfile_le, hfile⟩ := status_runFile i p o path
  obtain ⟨hdirectory_le, hdirectory⟩ := status_runDirectory i p o path
  rw [runInput, Succeeds]
  cases hisFile : i.tree.isFile path with
  | true =>
    rw [isDirectory_eq_false_of_isFile hisFile, if_pos rfl]
    exact ⟨hfile_le, hfile.trans (by simp)⟩
  | false =>
    cases hisDirectory : i.tree.isDirectory path with
    | true =>
      rw [if_neg Bool.false_ne_true, if_pos rfl]
      exact ⟨hdirectory_le, hdirectory.trans (by simp)⟩
    | false =>
      rw [if_neg Bool.false_ne_true, if_neg Bool.false_ne_true]
      exact ⟨Nat.le_refl _, by simp⟩

theorem Starts.run_eq (h : Starts i o p) (hhelp : i.args.head? ≠ some "--help") :
    (run i).status ≤ 1 ∧
      ((run i).status = 0 ↔ ∃ path, i.args.head? = some path ∧ Succeeds i p path) := by
  cases hhead : i.args.head? with
  | none =>
    have hargs : i.args = [] := List.head?_eq_none_iff.1 hhead
    have hstatus : (run i).status = 1 := by simp only [run, hargs]
    rw [hstatus]
    exact ⟨Nat.le_refl _, iff_of_false Nat.one_ne_zero fun ⟨_, h, _⟩ => nomatch h⟩
  | some path =>
    have hne : path ≠ "--help" := by
      rintro rfl
      exact hhelp hhead
    obtain ⟨hstatus, -⟩ := run_of_starts h hhead hne
    obtain ⟨hle, hzero⟩ := status_runInput i p o path
    rw [hstatus]
    refine ⟨hle, hzero.trans ⟨fun h => ⟨path, rfl, h⟩, ?_⟩⟩
    rintro ⟨path', h, hsucceeds⟩
    cases h
    exact hsucceeds

/-! ## Options without a part in the status -/

/-- Success depends on how files are read and found. -/
theorem Succeeds.congr (hfiles : p.files = p'.files)
    (hrecursive : p.batch.recursive = p'.batch.recursive)
    (hextensions : p.batch.extensions = p'.batch.extensions) :
    Succeeds i p path ↔ Succeeds i p' path := by
  have hdiscover : discover p.batch.clamped i.tree path = discover p'.batch.clamped i.tree path :=
    discover_congr (by exact hrecursive) (by exact hextensions) i.tree path
  rw [Succeeds, Succeeds, hdiscover]
  simp only [Accepts, hfiles]

/-- Options that name one preferences file and search to one depth succeed together. -/
theorem Starts.succeeds_iff {args : List String} (h : Starts i o p)
    (h' : Starts { i with args } o' p') (hrecursive : o'.recursive? = o.recursive?)
    (hconfig : o'.configFile? = o.configFile?) :
    Succeeds { i with args } p' path ↔ Succeeds i p path := by
  obtain ⟨loaded, hloaded, rfl⟩ := h.preferences
  obtain ⟨loaded', hloaded', rfl⟩ := h'.preferences
  have hsame : loaded' = loaded := by
    unfold CommandLine.preferences at hloaded hloaded'
    rw [hconfig] at hloaded'
    exact Except.ok.inj (hloaded'.symm.trans hloaded)
  subst hsame
  refine Succeeds.congr rfl ?_ rfl
  simp only [Options.applyTo, hrecursive]

/-! ## The program -/

/-- A program that is not asked for help ends with 2 if it is refused, and otherwise with 0 if its
input succeeds and with 1 if it does not. Options that name one preferences file and search to one
depth have one status. For a directory, in whatever turns the workers end, the status and the
output answer for the files that are found. -/
theorem exit_status (hhelp : i.args.head? ≠ some "--help") :
    ((run i).status = 2 ↔ Refused i) ∧
    (¬ Refused i → ∃ o p, Starts i o p ∧ (run i).status ≤ 1 ∧
      ((run i).status = 0 ↔ ∃ path, i.args.head? = some path ∧ Succeeds i p path)) ∧
    (∀ args o p o' p', Starts i o p → Starts { i with args } o' p' →
      args.head? = i.args.head? → o'.recursive? = o.recursive? → o'.configFile? = o.configFile? →
        (run { i with args }).status = (run i).status) ∧
    (∀ o p path files, Starts i o p → i.args.head? = some path →
      i.tree.isDirectory path = true →
      (discover p.batch.clamped i.tree path).value = .ok files →
        Answers i o p files (run i).status (run i).out ∧
          ∀ r, (batchOf p).CanEnd i.tree i.timing files r →
            Answers i o p files (batchAnswer o i.now r).status (batchAnswer o i.now r).out) := by
  refine ⟨⟨fun hstatus => ?_, fun h => status_of_refused h hhelp⟩, fun hrefused => ?_, ?_, ?_⟩
  · rcases starts_or_refused i with ⟨o, p, h⟩ | h
    · have := (h.run_eq hhelp).1
      omega
    · exact h
  · obtain ⟨o, p, h⟩ := (starts_or_refused i).resolve_right hrefused
    exact ⟨o, p, h, h.run_eq hhelp⟩
  · intro args o p o' p' h h' hhead hrecursive hconfig
    obtain ⟨hle, hzero⟩ := h.run_eq hhelp
    obtain ⟨hle', hzero'⟩ := h'.run_eq (by rw [hhead]; exact hhelp)
    -- both are 0 or 1
    have hsame : (run { i with args }).status = 0 ↔ (run i).status = 0 := by
      rw [hzero, hzero', hhead]
      exact exists_congr fun path => and_congr_right fun _ => h.succeeds_iff h' hrecursive hconfig
    omega
  · intro o p path files h hhead hdirectory hfiles
    have hne : path ≠ "--help" := by
      rintro rfl
      exact hhelp hhead
    have hnot : i.tree.isFile path = false := by
      refine Bool.eq_false_iff.2 fun hfile => ?_
      rw [isDirectory_eq_false_of_isFile hfile] at hdirectory
      cases hdirectory
    obtain ⟨hstatus, hout⟩ := run_of_starts h hhead hne
    have hinput : runInput i p o path = runDirectory i p o path := by
      rw [runInput, hnot, if_neg Bool.false_ne_true, hdirectory, if_pos rfl]
    rw [hstatus, hout, hinput]
    exact ⟨answers_runDirectory hfiles,
      fun r hr => answers_batchAnswer (ordered_of_discover hfiles).2 hr⟩

/-- The files of the directory, for the default depth and extensions. -/
theorem discover_mixedTree_of (hrecursive : p.batch.recursive = true)
    (hextensions : p.batch.extensions = ["scala"]) :
    (discover p.batch.clamped Batch.mixedTree ".").value = .ok ["./A.scala", "./B.scala"] := by
  have hsame : discover p.batch.clamped Batch.mixedTree "." = discover {} Batch.mixedTree "." :=
    discover_congr (by exact hrecursive) (by exact hextensions) _ _
  rw [hsame]
  exact Batch.discover_mixedTree

/-- A run on the files of a directory, one of which is too large. -/
def mixedRun : Invocation where
  program := "scala_tokenizer"
  args := [".", "--counts"]
  tree := Batch.mixedTree

theorem exit_status_mixed :
    mixedRun.args.head? ≠ some "--help" ∧ ∃ o p, Starts mixedRun o p ∧
      (discover p.batch.clamped mixedRun.tree ".").value = .ok ["./A.scala", "./B.scala"] ∧
      ((run mixedRun).status = 2 ↔ Refused mixedRun) ∧
      Answers mixedRun o p ["./A.scala", "./B.scala"] (run mixedRun).status (run mixedRun).out := by
  have hhelp : mixedRun.args.head? ≠ some "--help" := by decide
  have hstarts : Starts mixedRun { counts := true }
      (Options.applyTo { counts := true } (Preferences.ofEnvironment [])) := ⟨rfl, _, rfl, rfl⟩
  have hdiscover := discover_mixedTree_of (p := Options.applyTo { counts := true }
    (Preferences.ofEnvironment [])) rfl rfl
  have hdirectory : mixedRun.tree.isDirectory "." = true := by cbv
  obtain ⟨hrefused, -, -, hanswers⟩ := exit_status hhelp
  exact ⟨hhelp, _, _, hstarts, hdiscover, hrefused,
    (hanswers _ _ _ _ hstarts rfl hdirectory hdiscover).1⟩

/-- A run that preferences from the environment stop at the first failure. -/
def stoppedRun : Invocation where
  program := "scala_tokenizer"
  args := [".", "--threads", "1"]
  environment := [("SCALA_TOKENIZER_BATCH_FAIL_FAST", "true")]
  tree := Batch.mixedTree

/-- The options of the run. -/
def stoppedOptions : Options := { threads? := some 1 }

/-- The preferences of the run. -/
def stoppedPreferences : Preferences :=
  stoppedOptions.applyTo (Preferences.ofEnvironment stoppedRun.environment)

theorem starts_stoppedRun : Starts stoppedRun stoppedOptions stoppedPreferences :=
  ⟨rfl, _, rfl, rfl⟩

theorem locate_mixedTree (name : String) {content : Content} (hname : Path.isName name = true)
    (hfind : Batch.mixedTree.root.entries.find? (·.1 == name) = some (name, .file content))
    (hfits : FileTree.fits (Path.join "." name) = true)
    (hextent : FileTree.extent [(name, .file content)] ≤ FileTree.maxPath) :
    SourceFile.locate Batch.mixedTree (Path.join "." name) =
      .ok (FileTree.canonical [(name, .file content)], content) := by
  have hstart : Batch.mixedTree.start = [] := FileTree.start_eq_nil rfl
  have hlocate := SourceFile.locate_here (t := Batch.mixedTree) hname
    (by rw [hstart]; exact hfind) hfits (by rwa [hstart])
  rwa [hstart] at hlocate

/-- The first file of the directory is too large, the second one is not. -/
theorem accepts_stoppedRun : ¬ Accepts stoppedRun stoppedPreferences "./A.scala" ∧
    Accepts stoppedRun stoppedPreferences "./B.scala" := by
  have hA := locate_mixedTree "A.scala" (by decide) rfl (by decide) (by decide)
  have hB := locate_mixedTree "B.scala" (by decide) rfl (by decide) (by decide)
  exact ⟨fun h => absurd ((SourceFile.exists_read_iff hA rfl).1 h) (by decide),
    (SourceFile.exists_read_iff hB rfl).2 (by decide)⟩

/-- The run ends with the failure of the first file alone. -/
theorem out_stoppedRun : (run stoppedRun).out = "" := by
  have hinput : runInput stoppedRun stoppedPreferences stoppedOptions "." =
      runDirectory stoppedRun stoppedPreferences stoppedOptions "." := by
    have hfile : stoppedRun.tree.isFile "." = false := by cbv
    have hdirectory : stoppedRun.tree.isDirectory "." = true := by cbv
    rw [runInput, hfile, if_neg Bool.false_ne_true, hdirectory, if_pos rfl]
  have hfailure : ((batchOf stoppedPreferences).failure? stoppedRun.tree stoppedRun.timing
      "./A.scala").isSome = true := by
    refine Option.isSome_iff_ne_none.2 fun hnone => accepts_stoppedRun.1 ?_
    exact failure?_eq_none_iff.1 hnone
  have hfiles := Batch.files_runFiles_of_head_failure ["./B.scala"] rfl (by decide) hfailure
  rw [(run_of_starts starts_stoppedRun rfl (by decide)).2, hinput,
    value_runDirectory (discover_mixedTree_of rfl rfl), batchAnswer, batchText, hfiles]
  rfl

/-- Without the option, too, a file that cannot be read can keep another one from being shown. -/
theorem stoppedRun_hides_file : ∃ o p, Starts stoppedRun o p ∧ o.failFast = false ∧
    (discover p.batch.clamped stoppedRun.tree ".").value = .ok ["./A.scala", "./B.scala"] ∧
    Accepts stoppedRun p "./B.scala" ∧ (run stoppedRun).out = "" :=
  ⟨_, _, starts_stoppedRun, rfl, discover_mixedTree_of rfl rfl, accepts_stoppedRun.2,
    out_stoppedRun⟩

end CommandLine

end ScalaLex
