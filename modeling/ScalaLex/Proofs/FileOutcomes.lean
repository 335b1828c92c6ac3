import ScalaLex.Proofs.AbsolutePaths
import ScalaLex.Proofs.ReadFiles
import ScalaLex.Proofs.ScalaNames

/-!
# How reading a file ends

A path is checked step by step, and the first check that fails says how reading ends. With
`SourceFile.Outcome` each check has a case of its own, which holds what the checks before it have
shown. There is one outcome for a path (`SourceFile.value_load_iff`), and the log has one error for
a path that is refused and none for a file that is read (`SourceFile.load_outcome`).

A file can be small and its path short, and yet there may be no absolute path for it
(`SourceFile.deep_file_unread`).
-/

namespace ScalaLex

namespace Logged

variable {α : Type}

/-- The codes of the errors in a log. -/
def errorCodes (x : Logged α) : List Code :=
  ((x.entries.map (·.event)).filter Event.isError).map (·.code)

/-- The events with a code in a log. -/
def eventsOf (x : Logged α) (code : Code) : List Event :=
  (x.entries.map (·.event)).filter (·.code == code)

end Logged

namespace Event

theorem level_withPairs (e : Event) (ps : List (String × String)) :
    (e.withPairs ps).level = e.level := by
  induction ps generalizing e with
  | nil => rfl
  | cons p ps ih => exact ih (e.withPair p.1 p.2)

theorem code_withPairs (e : Event) (ps : List (String × String)) :
    (e.withPairs ps).code = e.code := by
  induction ps generalizing e with
  | nil => rfl
  | cons p ps ih => exact ih (e.withPair p.1 p.2)

end Event

namespace SourceFile

open FileTree (canonical extent maxPath)

variable {prefs : FilePreferences} {t : FileTree} {elapsed : Span} {path : String} {here : Trail}
  {content : Content} {e : FileError} {file : SourceFile} {o : Except FileError SourceFile}

/-! ## Outcomes -/

/-- The path leads to a place where there is a regular file. -/
structure LeadsTo (t : FileTree) (path : String) (here : Trail) (content : Content) : Prop where
  resolve : t.resolve path = .ok here
  nodeAt : t.nodeAt here = .file content

/-- How reading the file at a path ends. -/
inductive Outcome (prefs : FilePreferences) (t : FileTree) (elapsed : Span) (path : String) :
    Except FileError SourceFile → Prop
  | empty (empty : path.isEmpty = true) : Outcome prefs t elapsed path (.error (.invalidPath ""))
  | unresolved {e : LookupError} (nonempty : path.isEmpty = false)
      (unresolved : t.resolve path = .error e) :
      Outcome prefs t elapsed path (.error (.notFound path))
  | irregular {here : Trail} (resolve : t.resolve path = .ok here)
      (irregular : (t.nodeAt here).isFile = false) :
      Outcome prefs t elapsed path (.error (.invalidPath path))
  | unnamed {here : Trail} {content : Content} (leads : LeadsTo t path here content)
      (unnamed : t.realPath path = .error .nameTooLong) :
      Outcome prefs t elapsed path (.error (.unreadable path LookupError.nameTooLong.message))
  | large {here : Trail} {content : Content} (leads : LeadsTo t path here content)
      (named : t.realPath path = .ok (canonical here)) (large : FileSize.limit < content.size) :
      Outcome prefs t elapsed path (.error (.tooLarge content.size FileSize.limit))
  | other {here : Trail} {content : Content} (leads : LeadsTo t path here content)
      (named : t.realPath path = .ok (canonical here)) (small : content.size ≤ FileSize.limit)
      (required : prefs.requireExtension = true) (other : ¬HasScalaExtension (canonical here)) :
      Outcome prefs t elapsed path
        (.error (.invalidExtension (lowerExtension? (canonical here))))
  | done {here : Trail} {content : Content} (leads : LeadsTo t path here content)
      (named : t.realPath path = .ok (canonical here)) (small : content.size ≤ FileSize.limit)
      (scala : prefs.requireExtension = true → HasScalaExtension (canonical here)) :
      Outcome prefs t elapsed path (.ok ⟨canonical here, lowerExtension? (canonical here),
        content.toList, countLines content.toList, elapsed⟩)

/-- Locating a file makes the first checks. -/
theorem outcome_locate (prefs : FilePreferences) (t : FileTree) (elapsed : Span) (path : String) :
    match locate t path with
    | .error r => Outcome prefs t elapsed path (.error r.error)
    | .ok (absolute, content) => ∃ here, LeadsTo t path here content ∧
        t.realPath path = .ok (canonical here) ∧ absolute = canonical here := by
  cases hempty : path.isEmpty with
  | true =>
    rw [locate, if_pos hempty]
    exact .empty hempty
  | false =>
    rw [locate, if_neg (by simp [hempty])]
    cases hresolve : t.resolve path with
    | error e => exact .unresolved hempty hresolve
    | ok here =>
      cases hnode : t.nodeAt here with
      | link target =>
        simp only [hnode]
        exact .irregular hresolve (by rw [hnode]; rfl)
      | directory entries =>
        simp only [hnode]
        exact .irregular hresolve (by rw [hnode]; rfl)
      | file content =>
        simp only [hnode]
        rcases FileTree.realPath_of_resolve hresolve with hnamed | hunnamed
        · rw [hnamed]
          exact ⟨here, ⟨hresolve, hnode⟩, rfl, rfl⟩
        · rw [hunnamed]
          exact .unnamed ⟨hresolve, hnode⟩ hunnamed

/-- The last checks are for the size and then for the extension. -/
theorem outcome_check (prefs : FilePreferences) (absolute : String) (content : Content) :
    match check prefs absolute content with
    | .error r =>
      (FileSize.limit < content.size ∧ r.error = .tooLarge content.size FileSize.limit) ∨
        content.size ≤ FileSize.limit ∧ prefs.requireExtension = true ∧
          ¬HasScalaExtension absolute ∧ r.error = .invalidExtension (lowerExtension? absolute)
    | .ok _ => content.size ≤ FileSize.limit ∧
        (prefs.requireExtension = true → HasScalaExtension absolute) := by
  rw [check, ← lowerExtension?_eq_iff]
  split_ifs with hlarge hother
  · exact Or.inl ⟨hlarge, rfl⟩
  · rw [Bool.and_eq_true, bne_iff_ne] at hother
    exact Or.inr ⟨Nat.le_of_not_lt hlarge, hother.1, hother.2, rfl⟩
  · refine ⟨Nat.le_of_not_lt hlarge, fun hrequired => ?_⟩
    rwa [hrequired, Bool.true_and, bne_iff_ne, not_not] at hother

/-- A file that is located is read if it passes the last checks. -/
theorem read_of_locate_ok {absolute : String} (h : locate t path = .ok (absolute, content)) :
    read prefs t elapsed path = (check prefs absolute content).map fun _ =>
      ⟨absolute, lowerExtension? absolute, content.toList, countLines content.toList, elapsed⟩ := by
  simp only [read, h, bind, Except.bind]
  cases check prefs absolute content <;> rfl

/-- Reading has an outcome. -/
theorem outcome_load (prefs : FilePreferences) (t : FileTree) (elapsed : Span) (path : String) :
    Outcome prefs t elapsed path (load prefs t elapsed path).value := by
  have hlocated := outcome_locate prefs t elapsed path
  rw [value_load]
  cases hlocate : locate t path with
  | error r =>
    rw [hlocate] at hlocated
    rw [read, hlocate]
    exact hlocated
  | ok found =>
    obtain ⟨absolute, content⟩ := found
    rw [hlocate] at hlocated
    obtain ⟨here, hleads, hnamed, rfl⟩ := hlocated
    have hchecked := outcome_check prefs (canonical here) content
    rw [read_of_locate_ok hlocate]
    cases hcheck : check prefs (canonical here) content with
    | error r =>
      change Outcome prefs t elapsed path (.error r.error)
      rw [hcheck] at hchecked
      rcases hchecked with ⟨hlarge, hr⟩ | ⟨hsmall, hrequired, hother, hr⟩
      · rw [hr]
        exact .large hleads hnamed hlarge
      · rw [hr]
        exact .other hleads hnamed hsmall hrequired hother
    | ok u =>
      rw [hcheck] at hchecked
      exact .done hleads hnamed hchecked.1 hchecked.2

theorem LeadsTo.isEmpty_eq_false (h : LeadsTo t path here content) : path.isEmpty = false := by
  simpa using (FileTree.follow_eq_ok_iff.1 h.resolve).1.2.1

/-- A file with an absolute path is read if it passes the last checks. -/
theorem LeadsTo.value_load (h : LeadsTo t path here content)
    (hnamed : t.realPath path = .ok (canonical here)) : (load prefs t elapsed path).value =
      ((check prefs (canonical here) content).map fun _ => ⟨canonical here,
        lowerExtension? (canonical here), content.toList, countLines content.toList,
        elapsed⟩).mapError (·.error) := by
  have hlocate := locate_eq_ok_iff.2 ⟨h.isEmpty_eq_false, ⟨here, h.resolve, h.nodeAt⟩, hnamed⟩
  rw [SourceFile.value_load, read_of_locate_ok hlocate]

/-- An outcome is how reading ends. -/
theorem Outcome.value_load (h : Outcome prefs t elapsed path o) :
    (load prefs t elapsed path).value = o := by
  cases h with
  | empty empty => rw [SourceFile.value_load, read, locate, if_pos empty]; rfl
  | unresolved nonempty unresolved =>
    rw [SourceFile.value_load, read, locate, if_neg (by simp [nonempty]), unresolved]
    rfl
  | irregular resolve irregular =>
    have hnonempty := (FileTree.follow_eq_ok_iff.1 resolve).1.2.1
    rw [SourceFile.value_load, read, locate, if_neg (by simpa using hnonempty), resolve]
    cases hnode : t.nodeAt _ with
    | file content =>
      rw [hnode] at irregular
      cases irregular
    | link target => simp only [hnode]; rfl
    | directory entries => simp only [hnode]; rfl
  | unnamed leads unnamed =>
    rw [SourceFile.value_load, read, locate, if_neg (by simp [leads.isEmpty_eq_false]),
      leads.resolve]
    simp only [leads.nodeAt, unnamed]
    rfl
  | large leads named large =>
    rw [leads.value_load named, check, if_pos large]
    rfl
  | other leads named small required other =>
    rw [leads.value_load named, check, if_neg (Nat.not_lt_of_le small), required, Bool.true_and,
      if_pos (bne_iff_ne.2 fun h => other ((lowerExtension?_eq_iff _).1 h))]
    rfl
  | done leads named small scala =>
    rw [leads.value_load named, check, if_neg (Nat.not_lt_of_le small), if_neg]
    · rfl
    · rw [Bool.and_eq_true, bne_iff_ne, Ne, lowerExtension?_eq_iff]
      exact fun h => h.2 (scala h.1)

/-- Reading ends in one way. -/
theorem value_load_iff (prefs : FilePreferences) (t : FileTree) (elapsed : Span) (path : String)
    (o : Except FileError SourceFile) :
    (load prefs t elapsed path).value = o ↔ Outcome prefs t elapsed path o := by
  constructor
  · rintro rfl
    exact outcome_load prefs t elapsed path
  · exact Outcome.value_load

/-! ## Logs -/

theorem code_doneEvent (prefs : FilePreferences) (file : SourceFile) :
    (doneEvent prefs file).code = .fileRead ∧ (doneEvent prefs file).isError = false := by
  unfold doneEvent
  split <;> exact ⟨Event.code_withPairs _ _, by rw [Event.isError, Event.level_withPairs]; rfl⟩

theorem code_event (r : Refusal) : r.event.code = r.error.code ∧ r.event.isError = true :=
  ⟨Event.code_withPairs _ _, by rw [Event.isError, Refusal.event, Event.level_withPairs]; rfl⟩

/-- The log has the attempt and how it ended. -/
theorem events_load (prefs : FilePreferences) (t : FileTree) (elapsed : Span) (path : String) :
    ∃ start : Event, start.isError = false ∧ (start.code == .fileRead) = false ∧
      (load prefs t elapsed path).entries.map (·.event) =
        [start, outcomeEvent prefs (read prefs t elapsed path)] := ⟨_, rfl, rfl, rfl⟩

theorem logs_refusal (h : (load prefs t elapsed path).value = .error e) :
    (load prefs t elapsed path).errorCodes = [e.code] := by
  obtain ⟨start, hstart, -, hevents⟩ := events_load prefs t elapsed path
  rw [value_load] at h
  rw [Logged.errorCodes, hevents]
  cases hread : read prefs t elapsed path with
  | ok file =>
    rw [hread] at h
    cases h
  | error r =>
    rw [hread] at h
    cases h
    obtain ⟨hcode, herror⟩ := code_event r
    rw [outcomeEvent]
    simp [hstart, hcode, herror]

theorem logs_done (h : (load prefs t elapsed path).value = .ok file) :
    (load prefs t elapsed path).errorCodes = [] ∧
      (load prefs t elapsed path).eventsOf .fileRead = [doneEvent prefs file] := by
  obtain ⟨start, hstart, hstart', hevents⟩ := events_load prefs t elapsed path
  rw [value_load] at h
  rw [Logged.errorCodes, Logged.eventsOf, hevents]
  cases hread : read prefs t elapsed path with
  | error r =>
    rw [hread] at h
    cases h
  | ok file' =>
    rw [hread] at h
    cases h
    obtain ⟨hcode, herror⟩ := code_doneEvent prefs file
    rw [outcomeEvent]
    simp [hstart, hstart', hcode, herror]

/-- Reading ends in one way, with the events of that way : one error for a path that is refused,
and for a file that is read no error and one event that tells of it. -/
theorem load_outcome (prefs : FilePreferences) (t : FileTree) (elapsed : Span) (path : String) :
    (∀ o, (load prefs t elapsed path).value = o ↔ Outcome prefs t elapsed path o) ∧
      (∀ e, Outcome prefs t elapsed path (.error e) →
        (load prefs t elapsed path).errorCodes = [e.code]) ∧
      ∀ file, Outcome prefs t elapsed path (.ok file) →
        (load prefs t elapsed path).errorCodes = [] ∧
          (load prefs t elapsed path).eventsOf .fileRead = [doneEvent prefs file] :=
  ⟨value_load_iff prefs t elapsed path, fun _ h => logs_refusal h.value_load,
    fun _ h => logs_done h.value_load⟩

end SourceFile

/-! ## A file without an absolute path -/

/-- A node within so many directories, each the only entry of the one around it. -/
def Node.nest (name : String) (node : Node) : Nat → Node
  | 0 => node
  | n + 1 => .directory [(name, nest name node n)]

/-- A path through so many directories of one name. -/
def Path.nest (name path : String) : Nat → String
  | 0 => path
  | n + 1 => name ++ "/" ++ nest name path n

section

variable {name path : String} {entries : List (String × Node)} {node : Node} {t : FileTree}

theorem Node.isOrdered_nest (hname : Path.isName name = true) (hnode : node.isOrdered = true)
    (n : Nat) : (nest name node n).isOrdered = true := by
  induction n with
  | zero => exact hnode
  | succ n ih => simp [nest, isOrdered, areOrdered, hname, ih]

theorem Path.toList_nest_succ (name path : String) (n : Nat) :
    (nest name path (n + 1)).toList = name.toList ++ '/' :: (nest name path n).toList := by
  simp [nest]

theorem Path.names_nest (hname : Path.isName name = true) (n : Nat) :
    names (nest name path n) = List.replicate n name ++ names path := by
  induction n with
  | zero => rfl
  | succ n ih =>
    rw [names, toList_nest_succ, splitChars_append_slash,
      splitChars_of_not_mem (isName_iff.1 hname).2.2.2.1, List.map_append, List.map_singleton,
      String.ofList_toList]
    exact congrArg (name :: ·) ih

theorem Path.isAbsolute_nest (hname : Path.isName name = true) (n : Nat) :
    isAbsolute (nest name path (n + 1)) = false := by
  obtain ⟨hhere, -, -, hslash, -⟩ := isName_iff.1 hname
  rw [isAbsolute, toList_nest_succ]
  cases hlist : name.toList with
  | nil =>
    rw [String.toList_eq_nil_iff.1 hlist] at hhere
    cases hhere
  | cons c cs =>
    rw [hlist] at hslash
    simpa using (List.ne_of_not_mem_cons hslash).symm

theorem Path.nul_not_mem_nest (hname : Path.isName name = true) (hpath : '\x00' ∉ path.toList)
    (n : Nat) : '\x00' ∉ (nest name path n).toList := by
  induction n with
  | zero => exact hpath
  | succ n ih =>
    rw [toList_nest_succ]
    simp [(isName_iff.1 hname).2.2.2.2, ih]

theorem Path.utf8ByteSize_nest (name path : String) (n : Nat) :
    (nest name path n).utf8ByteSize = n * (name.utf8ByteSize + 1) + path.utf8ByteSize := by
  induction n with
  | zero => simp [nest]
  | succ n ih =>
    have hslash : "/".utf8ByteSize = 1 := rfl
    rw [nest, String.utf8ByteSize_append, String.utf8ByteSize_append, ih, hslash]
    ring

/-- The way through directories of one name. -/
theorem FileTree.exists_walk_nest (hname : Path.isName name = true) (here : Trail) (n k : Nat)
    (hhere : t.nodeAt here = .nest name (.directory entries) (n + k)) : ∃ there,
      t.nodeAt there = .nest name (.directory entries) k ∧
        extent there = extent here + n * (name.utf8ByteSize + 1) ∧
        ∀ links ns, t.walk anywhere links here (List.replicate n name ++ ns) =
          t.walk anywhere links there ns := by
  induction n generalizing here with
  | zero => exact ⟨here, by rw [hhere, Nat.zero_add], by simp, fun links ns => rfl⟩
  | succ n ih =>
    rw [Nat.add_right_comm] at hhere
    have hfind : (t.nodeAt here).entries.find? (·.1 == name) =
        some (name, .nest name (.directory entries) (n + k)) := by
      rw [hhere]
      simp [Node.nest, Node.entries]
    have hlink : ∀ target, Node.nest name (.directory entries) (n + k) ≠ .link target := by
      cases n + k <;> exact fun _ => Node.noConfusion
    obtain ⟨there, hthere, hextent, hwalk⟩ :=
      ih ((name, .nest name (.directory entries) (n + k)) :: here) rfl
    refine ⟨there, hthere, ?_, fun links ns => ?_⟩
    · rw [hextent, extent]
      ring
    · rw [List.replicate_succ, List.cons_append, walk_entry hname hfind hlink rfl, hwalk]

end

namespace SourceFile

open FileTree (extent)

/-- A name of 200 letters. -/
def longName : String := String.ofList (List.replicate 200 'a')

theorem toList_longName : longName.toList = List.replicate 200 'a' := String.toList_ofList

theorem ne_longName {s : String} (h : s.toList.length < 200) : longName ≠ s := by
  rintro rfl
  rw [toList_longName, List.length_replicate] at h
  exact Nat.lt_irrefl _ h

theorem utf8ByteSize_longName : longName.utf8ByteSize = 200 :=
  (String.utf8ByteSize_ofList _).trans (by decide +kernel)

theorem isName_longName : Path.isName longName = true := by
  refine Path.isName_iff.2 ⟨?_, ne_longName (by decide), ?_, ?_, ?_⟩
  · rw [Path.isHere, Bool.or_eq_false_iff, beq_eq_false_iff_ne, beq_eq_false_iff_ne]
    exact ⟨ne_longName (by decide), ne_longName (by decide)⟩
  · rw [utf8ByteSize_longName]
    decide
  · rw [toList_longName]
    exact fun h => absurd (List.eq_of_mem_replicate h) (by decide)
  · rw [toList_longName]
    exact fun h => absurd (List.eq_of_mem_replicate h) (by decide)

/-- A file of one byte. -/
def smallFile : Content := .bytes [120]

theorem isName_link : Path.isName "l" = true := by decide

/-- A small file within 21 directories with long names, and a link that leads through ten of
them. -/
def longTree : FileTree where
  root := .directory [(longName, .nest longName (.directory [("x.scala", .file smallFile)]) 20),
    ("l", .link (Path.nest longName longName 9))]
  isOrdered_root := by
    have hnest : (Node.nest longName (.directory [("x.scala", .file smallFile)]) 20).isOrdered =
        true := Node.isOrdered_nest isName_longName rfl 20
    have hbefore : Text.precedes longName "l" = true := by
      rw [Text.precedes, toList_longName]
      rfl
    simp [Node.isOrdered, Node.areOrdered, isName_longName, hnest, hbefore, isName_link]

/-- The path of the small file by way of the link. -/
def shortPath : String := Path.nest "l" (Path.nest longName "x.scala" 11) 1

theorem names_shortPath : Path.names shortPath =
    "l" :: (List.replicate 11 longName ++ ["x.scala"]) := by
  have hfile : Path.names "x.scala" = ["x.scala"] := by decide
  rw [shortPath, Path.names_nest isName_link, Path.names_nest isName_longName, hfile,
    List.replicate_one, List.singleton_append]

theorem shortPath_ne_empty : shortPath ≠ "" := by
  intro hempty
  have hnames := names_shortPath
  rw [hempty] at hnames
  exact absurd (congrArg List.length hnames) (by simp [Path.names, Path.splitChars])

theorem nul_not_mem_shortPath : '\x00' ∉ shortPath.toList :=
  Path.nul_not_mem_nest isName_link (Path.nul_not_mem_nest isName_longName (by decide) 11) 1

theorem fits_shortPath : FileTree.fits shortPath = true := by
  have hlink : "l".utf8ByteSize = 1 := rfl
  have hfile : "x.scala".utf8ByteSize = 7 := rfl
  rw [FileTree.fits, shortPath, Path.utf8ByteSize_nest, Path.utf8ByteSize_nest,
    utf8ByteSize_longName, hlink, hfile]
  decide

/-- The link leads where ten long names lead. -/
theorem walk_link_longTree (links : Nat) (ns : List String) :
    longTree.walk FileTree.anywhere (links + 1) [] ("l" :: ns) =
      longTree.walk FileTree.anywhere links [] (longName :: (List.replicate 9 longName ++ ns)) := by
  have hne : (longName == "l") = false := beq_eq_false_iff_ne.2 (ne_longName (by decide))
  have hfind : (longTree.nodeAt []).entries.find? (·.1 == "l") =
      some ("l", .link (Path.nest longName longName 9)) := by
    simp [FileTree.nodeAt, longTree, Node.entries, hne]
  have htarget : Path.names (Path.nest longName longName 9) =
      longName :: List.replicate 9 longName := by
    rw [Path.names_nest isName_longName, Path.names,
      Path.splitChars_of_not_mem (Path.isName_iff.1 isName_longName).2.2.2.1, List.map_singleton,
      String.ofList_toList, ← List.replicate_succ', List.replicate_succ]
  rw [FileTree.walk_link isName_link hfind (Path.isAbsolute_nest isName_longName 8) rfl, htarget,
    List.cons_append]

/-- The path leads to the small file, at a place that is far from the root. -/
theorem exists_leadsTo_shortPath : ∃ here, LeadsTo longTree shortPath here smallFile ∧
    extent here = 4229 := by
  have hfirst : (longTree.nodeAt []).entries.find? (·.1 == longName) = some
      (longName, .nest longName (.directory [("x.scala", .file smallFile)]) 20) := by
    simp [FileTree.nodeAt, longTree, Node.entries]
  obtain ⟨linked, hlinked, hextent, hwalk⟩ := FileTree.exists_walk_nest (t := longTree)
    isName_longName [(longName, .nest longName (.directory [("x.scala", .file smallFile)]) 20)]
    9 11 rfl
  obtain ⟨inner, hinner, hextent', hwalk'⟩ :=
    FileTree.exists_walk_nest isName_longName linked 11 0 hlinked
  refine ⟨("x.scala", .file smallFile) :: inner, ⟨?_, rfl⟩, ?_⟩
  · have hfile : (longTree.nodeAt inner).entries.find? (·.1 == "x.scala") =
        some ("x.scala", .file smallFile) := by
      rw [hinner]
      rfl
    have hstart : longTree.start = [] := FileTree.start_eq_nil rfl
    refine FileTree.follow_eq_ok_iff.2
      ⟨⟨nul_not_mem_shortPath, shortPath_ne_empty, fits_shortPath⟩, ?_⟩
    rw [names_shortPath, hstart, ite_self, FileTree.maxLinks, walk_link_longTree,
      FileTree.walk_entry isName_longName hfirst (fun _ => Node.noConfusion) rfl, hwalk, hwalk',
      FileTree.walk_entry rfl hfile (fun _ => Node.noConfusion) rfl, FileTree.walk]
  · have hfile : "x.scala".utf8ByteSize = 7 := rfl
    rw [extent, hextent', hextent, extent, extent, utf8ByteSize_longName, hfile]

/-- The path leads to a small file, and it is refused. -/
theorem deep_file_unread : (∃ here, LeadsTo longTree shortPath here smallFile) ∧
    smallFile.size ≤ FileSize.limit ∧
    (load { requireExtension := false } longTree {} shortPath).value =
      .error (.unreadable shortPath LookupError.nameTooLong.message) := by
  obtain ⟨here, hleads, hextent⟩ := exists_leadsTo_shortPath
  have hstart : longTree.start = [] := FileTree.start_eq_nil rfl
  have hunnamed := FileTree.realPath_of_extent hleads.resolve (by rw [hstart]; exact Nat.zero_le _)
    (by rw [hextent]; decide)
  exact ⟨⟨here, hleads⟩, by decide, (Outcome.unnamed hleads hunnamed).value_load⟩

end SourceFile

end ScalaLex
