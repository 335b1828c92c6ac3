import ScalaLex.Proofs.EntryPaths
import ScalaLex.Source.File

/-!
# Files that are read

What it takes for a file to be located (`SourceFile.locate_eq_ok_iff`) and to be read
(`SourceFile.read_eq_ok_iff`). A file in the working directory is located by its name behind a dot
(`SourceFile.locate_here`).
-/

namespace ScalaLex

namespace SourceFile

variable {t : FileTree} {prefs : FilePreferences} {elapsed : Span}
  {directory path absolute : String} {content : Content} {file : SourceFile}

/-- Reading with a log ends as reading does. -/
theorem value_load (prefs : FilePreferences) (t : FileTree) (elapsed : Span) (path : String) :
    (load prefs t elapsed path).value = (read prefs t elapsed path).mapError (·.error) := rfl

/-- A path that is not empty locates the regular file that it leads to, by its absolute path. -/
theorem locate_eq_ok_iff : locate t path = .ok (absolute, content) ↔
    path.isEmpty = false ∧ (∃ here, t.resolve path = .ok here ∧ t.nodeAt here = .file content) ∧
      t.realPath path = .ok absolute := by
  rw [locate]
  cases path.isEmpty with
  | true => simp
  | false =>
    rw [if_neg Bool.false_ne_true]
    cases t.resolve path with
    | error e => simp
    | ok here =>
      cases hnode : t.nodeAt here with
      | directory entries => simp [hnode]
      | link target => simp [hnode]
      | file content' =>
        cases t.realPath path with
        | error e => simp [hnode]
        | ok absolute' => simp [hnode, and_comm]

/-- A file that is located holds what is at its path. -/
theorem read_of_locate (h : locate t path = .ok (absolute, content)) :
    t.read path = .ok content := by
  obtain ⟨-, ⟨here, hresolve, hnode⟩, -⟩ := locate_eq_ok_iff.1 h
  rw [FileTree.read, FileTree.node?, hresolve, Except.map, hnode]

/-- A file in the working directory is located by its name behind a dot. -/
theorem locate_here {name : String} (hname : Path.isName name = true)
    (hfind : (t.nodeAt t.start).entries.find? (·.1 == name) = some (name, .file content))
    (hfits : FileTree.fits (Path.join "." name) = true)
    (hextent : FileTree.extent ((name, .file content) :: t.start) ≤ FileTree.maxPath) :
    locate t (Path.join "." name) =
      .ok (FileTree.canonical ((name, .file content) :: t.start), content) := by
  have hne : "." ≠ "" := by decide
  obtain ⟨ns, -, hnames, hns⟩ := Path.names_join hne hname
  have hdot : ns = ["."] := by
    have hnames' : Path.names "." = ["."] := by decide
    rcases hns with hns | hns
    · exact hns.symm.trans hnames'
    · exact absurd (congrArg List.getLast? (hns.symm.trans hnames')) (by simp)
  have hfollow : ∀ allowed : Trail → List String → Bool,
      allowed ((name, .file content) :: t.start) [] = true →
        t.follow allowed (Path.join "." name) = .ok ((name, .file content) :: t.start) := by
    intro allowed hallowed
    refine FileTree.follow_eq_ok_iff.2 ⟨⟨Path.not_mem_toList_join (by decide) (by decide)
      (Path.isName_iff.1 hname).2.2.2.2, Path.join_ne_empty hne name, hfits⟩, ?_⟩
    rw [Path.isAbsolute_join hne, hnames, hdot, if_neg (by decide), List.singleton_append,
      FileTree.walk, FileTree.isDirectory_of_find? hfind, if_neg (by decide), if_pos (by decide),
      FileTree.walk_entry hname hfind (fun _ => Node.noConfusion) hallowed, FileTree.walk]
  refine locate_eq_ok_iff.2 ⟨?_, ⟨_, hfollow _ rfl, rfl⟩, ?_⟩
  · simpa using Path.join_ne_empty hne name
  · rw [FileTree.realPath, hfollow _ (decide_eq_true hextent)]
    rfl

/-- A file is read if it is located and passes the checks, with its lines counted. -/
theorem read_eq_ok_iff : read prefs t elapsed path = .ok file ↔ ∃ absolute content,
    locate t path = .ok (absolute, content) ∧ check prefs absolute content = .ok () ∧
      file = ⟨absolute, lowerExtension? absolute, content.toList, countLines content.toList,
        elapsed⟩ := by
  rw [read]
  cases hlocate : locate t path with
  | error r => simp [bind, Except.bind]
  | ok found =>
    obtain ⟨absolute, content⟩ := found
    cases hcheck : check prefs absolute content with
    | error r => simp [bind, Except.bind, hcheck]
    | ok u =>
      simp only [bind, Except.bind, hcheck, pure, Except.pure, Except.ok.injEq, Prod.mk.injEq]
      constructor
      · rintro rfl
        exact ⟨_, _, ⟨rfl, rfl⟩, hcheck, rfl⟩
      · rintro ⟨_, _, ⟨rfl, rfl⟩, -, rfl⟩
        rfl

/-- Where no extension is asked for, a file passes the checks just if it is not too large. -/
theorem check_eq_ok_iff (hprefs : prefs.requireExtension = false) (absolute : String)
    (content : Content) : check prefs absolute content = .ok () ↔
      content.size ≤ FileSize.limit := by
  rw [check, hprefs, ← Nat.not_lt]
  split <;> simp [*]

/-- Where no extension is asked for, a file that is located is read just if it is not too large. -/
theorem exists_read_iff (hlocate : locate t path = .ok (absolute, content))
    (hprefs : prefs.requireExtension = false) :
    (∃ file, read prefs t elapsed path = .ok file) ↔ content.size ≤ FileSize.limit := by
  rw [← check_eq_ok_iff hprefs absolute]
  constructor
  · rintro ⟨file, hread⟩
    obtain ⟨absolute', content', hlocate', hpasses, -⟩ := read_eq_ok_iff.1 hread
    cases hlocate.symm.trans hlocate'
    exact hpasses
  · exact fun hpasses => ⟨_, read_eq_ok_iff.2 ⟨absolute, content, hlocate, hpasses, rfl⟩⟩

end SourceFile

end ScalaLex
