import ScalaLex.Proofs.Batches
import ScalaLex.Proofs.FileOutcomes

/-!
# Links among the files of a batch

A search looks at the extension in the path of what it comes across, and reading a file looks at the
extension in the absolute path, where links are resolved. For a file that lies below the directory
the two are one (`Search.Below.extension?_canonical`). So in a batch for Scala sources that asks for
their extension, only a link is refused for its extension, and it is just if the file that it
leads to has another one (`Batch.invalidExtension_iff`).
-/

namespace ScalaLex

open ScalaLex.Path (join)
open ScalaLex.FileTree (canonical)

namespace Search

variable {config : BatchPreferences} {t : FileTree} {directory path : String}
  {entries : List (String × Node)} {node : Node}

/-- The path of an entry that is no link leads to the entry, and the absolute path of that place has
the same extension. -/
theorem Below.extension?_canonical (below : Below config directory entries path node)
    (h : t.node? directory = .ok (.directory entries)) (hlink : ∀ target, node ≠ .link target)
    (hfits : FileTree.fits path = true) : ∃ here, t.resolve path = .ok here ∧
      t.nodeAt here = node ∧ Path.extension? (canonical here) = Path.extension? path := by
  induction below with
  | @entry directory name entries node mem =>
    obtain ⟨here, hresolve, hnode⟩ := FileTree.exists_resolve_of_node? h
    have hname := FileTree.isName_of_mem h mem
    have hfind : (t.nodeAt here).entries.find? (·.1 == name) = some (name, node) := by
      rw [hnode]
      exact Node.find?_of_mem (FileTree.areOrdered_of_node? h) mem
    refine ⟨(name, node) :: here, FileTree.resolve_join hresolve hname hfind hlink hfits, rfl, ?_⟩
    rw [FileTree.extension?_canonical here hname,
      Path.extension?_join (FileTree.ne_empty_of_node? h) hname]
  | inner recursive mem below ih =>
    exact ih (FileTree.node?_join h mem (fun _ => Node.noConfusion) (below.fits hfits)) hlink hfits

end Search

namespace Batch

variable {b : Batch} {t : FileTree} {timing : Timing} {directory path : String}
  {files : List String} {r : BatchResults}

/-! ## What a batch can return -/

/-- Results that a batch can have for a directory, in whatever turns its workers work. -/
def CanReturn (b : Batch) (t : FileTree) (timing : Timing) (directory : String)
    (r : BatchResults) : Prop :=
  ∃ files, (discover b.config t directory).value = .ok files ∧ b.CanEnd t timing files r

theorem canReturn_of_run (h : (b.run t timing directory).value = .ok r) :
    b.CanReturn t timing directory r := by
  cases hfiles : (discover b.config t directory).value with
  | error e => cases (value_run_of_error hfiles).symm.trans h
  | ok files =>
    cases (value_run hfiles).symm.trans h
    exact ⟨files, hfiles, canEnd_runFiles b t timing files⟩

/-- A file that is found is one that the search is for. -/
theorem isMatch_of_discover (hfiles : (discover b.config t directory).value = .ok files)
    (hpath : path ∈ files) : Search.IsMatch b.config t directory path := by
  obtain ⟨matching, hmatching, -, hfound, -⟩ := discover_first_files b.config t directory
  rw [(hfound files hfiles).1] at hpath
  exact (hmatching path).1 (List.mem_of_mem_take hpath)

theorem outcome_of_failure? {f : FileFailure} (h : b.failure? t timing path = some f) :
    SourceFile.Outcome b.files t timing.read path (.error f.error) := by
  unfold failure? at h
  split at h
  · cases h
  · rename_i refusal hread
    cases h
    refine (SourceFile.value_load_iff _ _ _ _ _).1 ?_
    rw [SourceFile.value_load, hread]
    rfl

/-! ## Links -/

/-- A link that the search comes across, to a file that could be read but for its extension. -/
structure LeadsElsewhere (config : BatchPreferences) (t : FileTree) (directory path : String) :
    Prop where
  link : ∃ entries target, t.node? directory = .ok (.directory entries) ∧
    Search.Below config directory entries path (.link target)
  elsewhere : ∃ here content, SourceFile.LeadsTo t path here content ∧
    t.realPath path = .ok (canonical here) ∧ content.size ≤ FileSize.limit ∧
    ¬SourceFile.HasScalaExtension (canonical here)

/-- In a batch for Scala sources that asks for their extension, in whatever turns, a file is refused
for its extension just if it is a link to a file with another one. -/
theorem invalidExtension_iff (hextensions : b.config.extensions = [SourceFile.scalaExtension])
    (hrequired : b.files.requireExtension = true) (h : b.CanReturn t timing directory r) :
    ∀ f ∈ r.failures, (∃ extension?, f.error = .invalidExtension extension?) ↔
      LeadsElsewhere b.config t directory f.path := by
  intro f hf
  obtain ⟨files, hfiles, hends⟩ := h
  obtain ⟨path, hpath, hfailure⟩ := exists_of_mem_failures hends hf
  have hmatch := isMatch_of_discover hfiles hpath
  have houtcome := outcome_of_failure? hfailure
  obtain rfl := path_of_failure? hfailure
  constructor
  · rintro ⟨extension?, herror⟩
    rw [herror] at houtcome
    cases houtcome with
    | @other here content leads named small required other =>
      refine ⟨?_, here, content, leads, named, small, other⟩
      obtain ⟨entries, node, hdirectory, below, hnode⟩ := hmatch.below
      cases node with
      | link target => exact ⟨entries, target, hdirectory, below⟩
      | directory inner => cases hnode
      | file content' =>
        -- the file lies there, so its absolute path has the extension that was searched for
        obtain ⟨here', hresolve, -, hextension⟩ := below.extension?_canonical hdirectory
          (fun _ => Node.noConfusion) (FileTree.fits_of_isFile hmatch.isFile)
        cases leads.resolve.symm.trans hresolve
        obtain ⟨a, ha, extension, hpath', hequal⟩ := hmatch.extension
        rw [hextensions, List.mem_singleton] at ha
        subst ha
        exact absurd ⟨extension, hextension.trans hpath', hequal⟩ other
  · rintro ⟨-, here, content, leads, named, small, other⟩
    have hother : SourceFile.Outcome b.files t timing.read f.path _ :=
      .other leads named small hrequired other
    exact ⟨_, Except.error.inj (houtcome.value_load.symm.trans hother.value_load)⟩

/-- A link with the extension of Scala sources to a text. -/
def linkTree : FileTree where
  root := .directory [("a.scala", .link "b.txt"), ("b.txt", .file (.bytes []))]

/-- A batch for Scala sources that asks for their extension. -/
def scalaBatch : Batch := { files := { requireExtension := true } }

/-- The place that the link leads to. -/
def linkedPlace : Trail := [("b.txt", .file (.bytes []))]

theorem follow_linkTree (allowed : Trail → List String → Bool)
    (hlink : allowed [("a.scala", .link "b.txt")] [] = true)
    (hplace : allowed linkedPlace [] = true) :
    linkTree.follow allowed "./a.scala" = .ok linkedPlace := by
  have hnames : Path.names "./a.scala" = [".", "a.scala"] := by decide
  have htarget : Path.names "b.txt" = ["b.txt"] := by decide
  refine FileTree.follow_eq_ok_iff.2 ⟨by decide, ?_⟩
  rw [hnames, FileTree.start_eq_nil rfl, ite_self, FileTree.walk, if_neg (by decide),
    if_pos (by decide), FileTree.maxLinks, FileTree.walk_link rfl rfl (by decide) hlink, htarget]
  change linkTree.walk _ _ _ ["b.txt"] = _
  rw [FileTree.walk_entry rfl rfl (fun _ => Node.noConfusion) hplace, FileTree.walk]
  rfl

theorem discover_linkTree : (discover scalaBatch.config linkTree ".").value =
    .ok ["./a.scala"] := by
  have hnode : linkTree.node? "." =
      .ok (.directory [("a.scala", .link "b.txt"), ("b.txt", .file (.bytes []))]) := by cbv
  have hjoin : join "." "a.scala" = "./a.scala" := by decide
  have hfile : linkTree.isFile "./a.scala" = true := by
    rw [FileTree.isFile, FileTree.node?, FileTree.resolve, follow_linkTree _ rfl rfl]
    rfl
  have hscala : Search.hasExtension ["scala"] "a.scala" = true := by decide
  have htext : Search.hasExtension ["scala"] "b.txt" = false := by decide
  have hsort : Path.sortOn id ["./a.scala"] = ["./a.scala"] :=
    Path.sortOn_of_pairwise (List.pairwise_singleton _ _)
  rw [value_discover hnode (FileTree.list_of_refusals_nil hnode rfl)]
  simp [scalaBatch, Search.visitAll, Search.visit, Search.visitFile, Search.leadsToFile,
    Search.limit, Search.push, Search.files, hjoin, hscala, htext, hfile, hsort]

theorem failure?_linkTree : scalaBatch.failure? linkTree {} "./a.scala" =
    some ⟨"./a.scala", .invalidExtension (some "txt")⟩ := by
  have hlocate : SourceFile.locate linkTree "./a.scala" = .ok ("/b.txt", .bytes []) := by
    refine SourceFile.locate_eq_ok_iff.2
      ⟨by decide, ⟨linkedPlace, follow_linkTree _ rfl rfl, rfl⟩, ?_⟩
    rw [FileTree.realPath, follow_linkTree _ (by decide) (by decide)]
    decide
  have hextension : SourceFile.lowerExtension? "/b.txt" = some "txt" := by cbv
  rw [failure?, SourceFile.read_of_locate_ok hlocate, SourceFile.check, hextension]
  rfl

theorem exists_run_linkTree : ∃ r, (scalaBatch.run linkTree {} ".").value = .ok r ∧
    ⟨"./a.scala", .invalidExtension (some "txt")⟩ ∈ r.failures := by
  refine ⟨_, value_run discover_linkTree, ?_⟩
  rw [eq_resultsOf_of_canEnd (canEnd_runFiles scalaBatch linkTree {} ["./a.scala"])
    (List.pairwise_singleton _ _) (Or.inl rfl), resultsOf,
    List.filterMap_cons_some failure?_linkTree]
  exact List.mem_cons_self

/-- A file that is found for its extension is refused for its extension. -/
theorem linked_file_refused : scalaBatch.config.extensions = [SourceFile.scalaExtension] ∧
    scalaBatch.files.requireExtension = true ∧
    ∃ r, (scalaBatch.run linkTree {} ".").value = .ok r ∧
      ∃ f ∈ r.failures, ∃ extension?, f.error = .invalidExtension extension? := by
  obtain ⟨r, hrun, hf⟩ := exists_run_linkTree
  exact ⟨rfl, rfl, r, hrun, _, hf, _, rfl⟩

theorem invalidExtension_iff_link : scalaBatch.config.extensions = [SourceFile.scalaExtension] ∧
    scalaBatch.files.requireExtension = true ∧ ∃ r, scalaBatch.CanReturn linkTree {} "." r ∧
      r.failures ≠ [] ∧ LeadsElsewhere scalaBatch.config linkTree "." "./a.scala" := by
  obtain ⟨r, hrun, hf⟩ := exists_run_linkTree
  have hreturn := canReturn_of_run hrun
  exact ⟨rfl, rfl, r, hreturn, List.ne_nil_of_mem hf,
    (invalidExtension_iff rfl rfl hreturn _ hf).1 ⟨_, rfl⟩⟩

end Batch

end ScalaLex
