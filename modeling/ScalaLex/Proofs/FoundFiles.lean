import ScalaLex.Proofs.Encounters

/-!
# Files found in a directory

A search takes up the front of what it comes across (`visitAll_ends`) : it is done with all of
it, or it ends at the limit and warns of that, or it fails at a directory before the limit. What
it comes across is in path order, so the files found are the first ones (`discover_first_files`).
-/

namespace ScalaLex

open ScalaLex.Path (isName join)

namespace Search

variable {config : BatchPreferences} {t : FileTree} {directory name path : String} {node : Node}
  {entries : List (String × Node)} {s s' : Search} {es fs : List Encounter} {e : Encounter}
  {r : Except BatchError Search} {error : BatchError}

/-! ## The search as a cut of the list -/

/-- How a search goes on from `s` where it comes across a list : it takes up files until nothing
is left or the limit is reached, which is warned of, or it fails before the limit. -/
inductive Ends (s : Search) : List Encounter → Except BatchError Search → Prop
  | found (taken : List String) (left : List Encounter) {s' : Search}
      (files : s'.files = s.files ++ taken) (count : s'.count = s.count + taken.length)
      (le_limit : s'.count ≤ limit) (unfinished : s.unfinished ≤ s'.unfinished)
      (left_out : left ≠ [] → s'.count = limit ∧ s.unfinished < s'.unfinished) :
      Ends s (taken.map .file ++ left) (.ok s')
  | failed (taken : List String) {path message : String} {left : List Encounter}
      (lt_limit : s.count + taken.length < limit) :
      Ends s (taken.map .file ++ .blocked path message :: left) (.error (.traversal path message))

theorem Ends.refl (h : s.count ≤ limit) : Ends s [] (.ok s) :=
  .found [] [] (List.append_nil _).symm rfl h (Nat.le_refl _) fun h =>
    absurd rfl h

theorem Ends.count_le (h : Ends s es (.ok s')) : s'.count ≤ limit := by
  cases h with
  | found taken left files count le_limit unfinished left_out => exact le_limit

/-- A search that failed does not go on. -/
theorem Ends.append_of_error (h : Ends s es (.error error)) (fs : List Encounter) :
    Ends s (es ++ fs) (.error error) := by
  cases h with
  | failed taken lt_limit =>
    rw [List.append_assoc, List.cons_append]
    exact .failed taken lt_limit

/-- A search goes on where it ended, with nothing more to take up if that was at the limit. -/
theorem Ends.append (h : Ends s es (.ok s')) (h' : Ends s' fs r) : Ends s (es ++ fs) r := by
  cases h with
  | found taken left files count le_limit unfinished left_out =>
    cases h' with
    | found taken' left' files' count' le_limit' unfinished' left_out' =>
      cases left with
      | nil =>
        rw [List.append_nil, ← List.append_assoc, ← List.map_append]
        refine .found _ left' ?_ ?_ le_limit' (Nat.le_trans unfinished unfinished') fun hleft => ?_
        · rw [files', files, List.append_assoc]
        · rw [count', count, List.length_append, Nat.add_assoc]
        · exact ⟨(left_out' hleft).1, Nat.lt_of_le_of_lt unfinished (left_out' hleft).2⟩
      | cons e left =>
        -- the first search ended at the limit, so the second one took up nothing
        obtain ⟨hlimit, hunfinished⟩ := left_out (List.cons_ne_nil e left)
        have htaken : taken' = [] := List.eq_nil_of_length_eq_zero (by omega)
        rw [htaken, List.append_nil] at files'
        rw [htaken, List.length_nil, Nat.add_zero] at count'
        rw [List.append_assoc]
        refine .found taken _ (files'.trans files) (count'.trans count) le_limit'
          (Nat.le_trans unfinished unfinished') fun _ => ?_
        exact ⟨count'.trans hlimit, Nat.lt_of_lt_of_le hunfinished unfinished'⟩
    | failed taken' lt_limit =>
      cases left with
      | nil =>
        rw [List.append_nil, ← List.append_assoc, ← List.map_append]
        exact .failed _ (by rw [List.length_append]; omega)
      | cons e left =>
        have := (left_out (List.cons_ne_nil e left)).1
        omega

theorem visitFile_ends (h : s.count < limit) : Ends s
    (if hasExtension config.extensions name && leadsToFile t (join directory name) node
      then [.file (join directory name)] else [])
    (.ok (visitFile config t directory name node s)) := by
  rw [visitFile]
  split
  · exact .found [join directory name] [] List.reverse_cons rfl h
      (Nat.le_refl _) fun h => absurd rfl h
  · exact .refl (Nat.le_of_lt h)

mutual

theorem visit_ends : ∀ (directory name : String) (node : Node) {s : Search}, s.count < limit →
    Ends s (encounters config t directory name node) (visit config t directory name node s)
  | directory, name, .directory entries, s, h => by
    rw [encounters, visit, barriers]
    split
    · exact .refl (Nat.le_of_lt h)
    cases hlist : t.list (join directory name) with
    | error message => exact .failed [] h
    | ok listed =>
      rw [FileTree.fits_of_list hlist]
      exact visitAll_ends (join directory name) entries (Nat.le_of_lt h)
  | directory, name, .file content, s, h => by
    simp only [encounters, visit]
    exact visitFile_ends h
  | directory, name, .link target, s, h => by
    simp only [encounters, visit]
    exact visitFile_ends h

/-- The search of a directory takes up the front of what it comes across. -/
theorem visitAll_ends : ∀ (directory : String) (entries : List (String × Node)) {s : Search},
    s.count ≤ limit →
      Ends s (encountersAll config t directory entries) (visitAll config t directory entries s)
  | directory, [], s, h => .refl h
  | directory, (name, node) :: rest, s, h => by
    rw [encountersAll, visitAll]
    split
    · rename_i hlimit
      exact .found [] _ (List.append_nil _).symm rfl h (Nat.le_succ _) fun _ =>
        ⟨Nat.le_antisymm h hlimit, Nat.lt_succ_self _⟩
    · rename_i hlimit
      have hvisit := visit_ends directory name node (Nat.lt_of_not_le hlimit)
      split
      · rename_i s' hs
        rw [hs] at hvisit
        exact hvisit.append (visitAll_ends directory rest hvisit.count_le)
      · rename_i e he
        rw [he] at hvisit
        exact hvisit.append_of_error _

end

theorem ends_visitAll (config : BatchPreferences) (t : FileTree) (directory : String)
    (entries : List (String × Node)) : Ends {} (encountersAll config t directory entries)
      (visitAll config t directory entries {}) :=
  visitAll_ends directory entries (Nat.zero_le _)

/-- The files among what a search comes across. -/
def filesIn (es : List Encounter) : List String := es.filterMap Encounter.file?

theorem mem_filesIn_iff : path ∈ filesIn es ↔ .file path ∈ es := by
  rw [filesIn, List.mem_filterMap]
  constructor
  · rintro ⟨e, he, hpath⟩
    cases e with
    | file p =>
      cases hpath
      exact he
    | blocked p message => cases hpath
  · exact fun h => ⟨_, h, rfl⟩

theorem filesIn_append (taken : List String) (left : List Encounter) :
    filesIn (taken.map .file ++ left) = taken ++ filesIn left := by
  rw [filesIn, List.filterMap_append, Encounter.filterMap_file?_map_file]
  rfl

theorem pairwise_filesIn (h : es.Pairwise IsBefore) :
    (filesIn es).Pairwise fun p q => Path.precedes p q = true := by
  refine h.filterMap _ fun e f hef p hp q hq => ?_
  cases e with
  | file p' =>
    cases f with
    | file q' =>
      cases hp
      cases hq
      exact hef
    | blocked q' message => cases hq
  | blocked p' message => cases hp

/-- A search that does not fail has found the first files, and has been warned of others. -/
theorem Ends.files_eq (h : Ends {} es (.ok s)) : s.files = (filesIn es).take limit ∧
    s.count = s.files.length ∧ (s.files.length < (filesIn es).length → 0 < s.unfinished) := by
  cases h with
  | found taken left files count le_limit unfinished left_out =>
    have htaken : s.files = taken := files
    have hcount : s.count = taken.length := by simpa using count
    rw [filesIn_append, htaken]
    refine ⟨?_, hcount, fun hlt => ?_⟩
    · cases left with
      | nil => rw [List.take_of_length_le] <;> simp [filesIn]; omega
      | cons e left =>
        have := (left_out (List.cons_ne_nil e left)).1
        rw [List.take_append_of_le_length (by omega), List.take_of_length_le (by omega)]
    · have hleft : left ≠ [] := by
        rintro rfl
        simp [filesIn] at hlt
      exact Nat.lt_of_le_of_lt (Nat.zero_le _) (left_out hleft).2

/-- A search fails at a directory that less files than the limit stand before. -/
theorem Ends.exists_blocked (h : Ends {} es (.error error)) (hes : es.Pairwise IsBefore) :
    ∃ q message, .blocked q message ∈ es ∧
      (filesIn es).countP (Path.precedes · q) < limit := by
  cases h with
  | @failed taken q message left lt_limit =>
    refine ⟨q, message, List.mem_append_right _ List.mem_cons_self, ?_⟩
    -- only what was taken up stands before the directory
    have hleft : (filesIn (.blocked q message :: left)).countP (Path.precedes · q) = 0 := by
      refine List.countP_eq_zero.2 fun p hp => ?_
      have hafter := (List.pairwise_append.1 hes).2.1
      have hp' : Encounter.file p ∈ left := by simpa using mem_filesIn_iff.1 hp
      have hqp : IsBefore (.blocked q message) (.file p) := (List.pairwise_cons.1 hafter).1 _ hp'
      exact Bool.eq_false_iff.1 (Path.not_precedes_of_precedes (p := q) (q := p) hqp)
    rw [filesIn_append, List.countP_append, hleft]
    have := List.countP_le_length (p := (Path.precedes · q)) (l := taken)
    simp at lt_limit
    omega

/-- Where a search ends well, the limit stands before what it could not have listed. -/
theorem Ends.limit_le (h : Ends {} es (.ok s)) (hes : es.Pairwise IsBefore) {q message : String}
    (hq : .blocked q message ∈ es) : limit ≤ (filesIn es).countP (Path.precedes · q) := by
  cases h with
  | found taken left files count le_limit unfinished left_out =>
    have hleft : .blocked q message ∈ left := by simpa using hq
    have hlimit := (left_out (List.ne_nil_of_mem hleft)).1
    have htaken : taken.countP (Path.precedes · q) = taken.length := by
      refine List.countP_eq_length.2 fun p hp => ?_
      have hmem : Encounter.file p ∈ taken.map .file := List.mem_map_of_mem hp
      have hpq : IsBefore (.file p) (.blocked q message) :=
        (List.pairwise_append.1 hes).2.2 _ hmem _ hleft
      exact hpq
    have hcount : s.count = taken.length := by simpa using count
    rw [filesIn_append, List.countP_append, htaken, ← hlimit, hcount]
    exact Nat.le_add_right _ _

/-- Where the search of a directory ends well, the limit stands before every directory that cannot
be listed. -/
theorem limit_le_of_isBarred (h : t.node? directory = .ok (.directory entries))
    (hends : Ends {} (encountersAll config t directory entries) (.ok s))
    (hpath : IsBarred config t directory path) :
    limit ≤ (filesIn (encountersAll config t directory entries)).countP (Path.precedes · path) := by
  obtain ⟨entries', inner, hentries', below⟩ := hpath.below
  cases h.symm.trans hentries'
  obtain ⟨q, message, hq, hle⟩ := exists_blocked_mem hpath.recursive h below hpath.barred
  refine Nat.le_trans (hends.limit_le (pairwise_encountersAll config h) hq) ?_
  -- what stands before the one that the search comes across stands before the other
  refine List.countP_mono_left fun p _ hp => ?_
  rcases hle with rfl | hle
  · exact hp
  · exact Path.precedes_trans hp hle

end Search

open Search

variable {config : BatchPreferences} {t : FileTree} {directory path : String}
  {entries : List (String × Node)} {files : List String}

/-! ## Discovery -/

/-- The files of a directory come as its search finds them. -/
theorem value_discover (h : t.node? directory = .ok (.directory entries))
    (hlist : t.list directory = .ok entries) :
    (discover config t directory).value =
      match visitAll config t directory entries {} with
      | .error e => .error e
      | .ok s =>
        if s.count = 0 then .error (.noFilesFound directory config.extensions)
        else .ok (Path.sortOn id s.files) := by
  simp only [discover, h, visitDirectory, hlist, Logged.value_bind]
  cases visitAll config t directory entries {} with
  | error e => rfl
  | ok s =>
    simp only [Logged.value_bind]
    split <;> rfl

/-- Discovery fails at a directory that cannot be listed. -/
theorem value_discover_of_list_error (h : t.node? directory = .ok (.directory entries))
    {message : String} (hlist : t.list directory = .error message) :
    (discover config t directory).value = .error (.traversal directory message) := by
  simp only [discover, h, visitDirectory, hlist, Logged.value_bind]
  rfl

theorem list_of_discover (h : t.node? directory = .ok (.directory entries))
    (hfiles : (discover config t directory).value = .ok files) :
    t.list directory = .ok entries := by
  rcases FileTree.list_eq_or h with ⟨hlist, -⟩ | ⟨⟨message, hlist⟩, -⟩
  · exact hlist
  · cases (value_discover_of_list_error h hlist).symm.trans hfiles

/-- A search that leaves a directory unfinished warns of the limit. -/
theorem limit_warned (h : t.node? directory = .ok (.directory entries))
    (hlist : t.list directory = .ok entries) {s : Search}
    (hs : visitAll config t directory entries {} = .ok s) (hunfinished : 0 < s.unfinished) :
    ∃ x ∈ (discover config t directory).entries,
      x.event.level = .warning ∧ x.event.code = .fileLimitReached := by
  refine ⟨⟨none, s.limitEvent⟩, ?_, rfl, rfl⟩
  simp only [discover, h, visitDirectory, hlist, hs, Logged.entries_bind, Logged.emitAll]
  refine List.mem_append_right _ (List.mem_append_left _ ?_)
  rw [List.map_replicate]
  exact List.mem_replicate.2 ⟨by omega, rfl⟩

theorem exists_error_of_not_directory (config : BatchPreferences)
    (h : ∀ entries, t.node? directory ≠ .ok (.directory entries)) :
    (∃ e, (discover config t directory).value = .error e) ∧
      (t.exists? directory = false ∨ t.isDirectory directory = false) := by
  rw [discover, FileTree.exists?, FileTree.isDirectory]
  cases hnode : t.node? directory with
  | error e => exact ⟨⟨_, rfl⟩, Or.inl rfl⟩
  | ok node =>
    cases node with
    | directory entries => exact absurd hnode (h entries)
    | file content => exact ⟨⟨_, rfl⟩, Or.inr rfl⟩
    | link target => exact ⟨⟨_, rfl⟩, Or.inr rfl⟩

/-- The files found are the first ones that the search comes across. -/
theorem eq_take_of_discover (h : t.node? directory = .ok (.directory entries))
    (hfiles : (discover config t directory).value = .ok files) :
    files = (filesIn (encountersAll config t directory entries)).take limit ∧
      (files ≠ filesIn (encountersAll config t directory entries) →
        ∃ x ∈ (discover config t directory).entries,
          x.event.level = .warning ∧ x.event.code = .fileLimitReached) := by
  have hends := ends_visitAll config t directory entries
  have hpairwise := pairwise_filesIn (pairwise_encountersAll config h)
  have hlist := list_of_discover h hfiles
  rw [value_discover h hlist] at hfiles
  cases hvisit : visitAll config t directory entries {} with
  | error e =>
    rw [hvisit] at hfiles
    cases hfiles
  | ok s =>
    rw [hvisit] at hfiles hends
    obtain ⟨hs, -, hunfinished⟩ := hends.files_eq
    have hsort : Path.sortOn id s.files = s.files :=
      Path.sortOn_of_pairwise (by rw [hs]; exact hpairwise.sublist (List.take_sublist _ _))
    have heq : s.files = files := by
      dsimp only at hfiles
      split at hfiles
      · cases hfiles
      · rw [hsort] at hfiles
        exact Except.ok.inj hfiles
    subst heq
    refine ⟨hs, fun hne => limit_warned h hlist hvisit (hunfinished ?_)⟩
    refine Nat.lt_of_not_le fun hle => hne ?_
    rw [hs, List.length_take] at hle
    rw [hs, List.take_of_length_le (by omega)]

/-- Discovery in a directory that can be listed fails where the search fails, or if it finds
nothing. -/
theorem exists_error_iff_of_list (h : t.node? directory = .ok (.directory entries))
    (hlist : t.list directory = .ok entries) :
    (∃ e, (discover config t directory).value = .error e) ↔
      filesIn (encountersAll config t directory entries) = [] ∨
        ∃ q, IsBarred config t directory q ∧
          (filesIn (encountersAll config t directory entries)).countP (Path.precedes · q) <
            limit := by
  have hends := ends_visitAll config t directory entries
  rw [value_discover h hlist]
  cases hvisit : visitAll config t directory entries {} with
  | error e =>
    rw [hvisit] at hends
    obtain ⟨q, message, hq, hcount⟩ := hends.exists_blocked (pairwise_encountersAll config h)
    obtain ⟨x, hx, hq⟩ := mem_encountersAll_iff.1 hq
    exact iff_of_true ⟨e, rfl⟩ (Or.inr ⟨q, expects_of_mem directory x.1 x.2 h hx hq, hcount⟩)
  | ok s =>
    rw [hvisit] at hends
    obtain ⟨hs, hcount, -⟩ := hends.files_eq
    have hbarred : ¬ ∃ q, IsBarred config t directory q ∧
        (filesIn (encountersAll config t directory entries)).countP (Path.precedes · q) <
          limit :=
      fun ⟨q, hq, hlt⟩ => Nat.not_lt_of_le (limit_le_of_isBarred h hends hq) hlt
    have hzero : s.count = 0 ↔ filesIn (encountersAll config t directory entries) = [] := by
      rw [hcount, hs, List.length_eq_zero_iff, List.take_eq_nil_iff]
      exact or_iff_right (by decide)
    rw [or_iff_left hbarred, ← hzero]
    dsimp only
    split
    · rename_i hs
      exact iff_of_true ⟨_, rfl⟩ hs
    · rename_i hs
      exact iff_of_false (fun ⟨_, he⟩ => nomatch he) hs

/-- Discovery in a directory fails if the directory is refused, where the search fails, or if it
finds nothing. -/
theorem exists_error_iff (h : t.node? directory = .ok (.directory entries)) :
    (∃ e, (discover config t directory).value = .error e) ↔ t.Refuses directory ∨
      filesIn (encountersAll config t directory entries) = [] ∨
        ∃ q, IsBarred config t directory q ∧
          (filesIn (encountersAll config t directory entries)).countP (Path.precedes · q) <
            limit := by
  rcases FileTree.list_eq_or h with ⟨hlist, hnot⟩ | ⟨⟨message, hlist⟩, hrefuses⟩
  · rw [or_iff_right hnot, exists_error_iff_of_list h hlist]
  · exact iff_of_true ⟨_, value_discover_of_list_error h hlist⟩ (Or.inl hrefuses)

/-- The files found in a directory are the first ones in path order, up to the limit, of those that
count, and a warning is given if there are more. Nothing comes back just if the path does not lead
to a directory, if that is one that the operating system refuses to list, if there is no file that
counts, or if a directory that is refused or has a path that is too long is to be listed before the
limit. -/
theorem discover_first_files (config : BatchPreferences) (t : FileTree) (directory : String) :
    ∃ matching : List String,
      (∀ path, path ∈ matching ↔ IsMatch config t directory path) ∧
      (matching.Pairwise fun p q => Path.precedes p q = true) ∧
      (∀ files, (discover config t directory).value = .ok files →
        files = matching.take limit ∧
          (files ≠ matching → ∃ x ∈ (discover config t directory).entries,
            x.event.level = .warning ∧ x.event.code = .fileLimitReached)) ∧
      ((∃ e, (discover config t directory).value = .error e) ↔
        t.exists? directory = false ∨ t.isDirectory directory = false ∨ t.Refuses directory ∨
          matching = [] ∨ ∃ q, IsBarred config t directory q ∧
            matching.countP (Path.precedes · q) < limit) := by
  by_cases hdirectory : ∃ entries, t.node? directory = .ok (.directory entries)
  · obtain ⟨entries, h⟩ := hdirectory
    have hexists : t.exists? directory = true := by rw [FileTree.exists?, h]
    have hisDirectory : t.isDirectory directory = true := by rw [FileTree.isDirectory, h]; rfl
    refine ⟨filesIn (encountersAll config t directory entries), fun path => ?_,
      pairwise_filesIn (pairwise_encountersAll config h), fun files => eq_take_of_discover h, ?_⟩
    · rw [mem_filesIn_iff, file_mem_encountersAll_iff h]
    · rw [exists_error_iff h, hexists, hisDirectory]
      simp
  · obtain ⟨herror, hnot⟩ :=
      exists_error_of_not_directory config (not_exists.1 hdirectory)
    refine ⟨[], fun path => ?_, .nil, fun files hfiles => ?_, ?_⟩
    · refine iff_of_false List.not_mem_nil fun hmatch => ?_
      obtain ⟨entries, -, h, -⟩ := hmatch.below
      exact hdirectory ⟨entries, h⟩
    · obtain ⟨e, he⟩ := herror
      cases he.symm.trans hfiles
    · exact iff_of_true herror (hnot.imp_right Or.inl)

/-- Discovery that finds files was in a directory, and the files come in path order. -/
theorem ordered_of_discover (hfiles : (discover config t directory).value = .ok files) :
    files ≠ [] ∧ files.Pairwise fun p q => Path.precedes p q = true := by
  have hdirectory : ∃ entries, t.node? directory = .ok (.directory entries) := by
    refine Classical.byContradiction fun hnot => ?_
    obtain ⟨⟨e, he⟩, -⟩ := exists_error_of_not_directory config (not_exists.1 hnot)
    cases he.symm.trans hfiles
  obtain ⟨entries, h⟩ := hdirectory
  obtain ⟨heq, -⟩ := eq_take_of_discover h hfiles
  constructor
  · intro hnil
    have hnone := List.take_eq_nil_iff.1 (heq.symm.trans hnil)
    obtain ⟨e, he⟩ := (exists_error_iff h).2 (Or.inr (Or.inl (hnone.resolve_left (by decide))))
    cases he.symm.trans hfiles
  · rw [heq]
    exact (pairwise_filesIn (pairwise_encountersAll config h)).sublist (List.take_sublist _ _)

/-! ## What discovery depends on -/

section

variable {config' : BatchPreferences}

mutual

theorem visit_congr (hrecursive : config.recursive = config'.recursive)
    (hextensions : config.extensions = config'.extensions) :
    ∀ (directory name : String) (node : Node) (s : Search),
      visit config t directory name node s = visit config' t directory name node s
  | directory, name, .directory entries, s => by
    rw [visit, visit, hrecursive, visitAll_congr hrecursive hextensions]
  | directory, name, .file content, s => by simp only [visit, visitFile, hextensions]
  | directory, name, .link target, s => by simp only [visit, visitFile, hextensions]

theorem visitAll_congr (hrecursive : config.recursive = config'.recursive)
    (hextensions : config.extensions = config'.extensions) :
    ∀ (directory : String) (entries : List (String × Node)) (s : Search),
      visitAll config t directory entries s = visitAll config' t directory entries s
  | directory, [], s => rfl
  | directory, (name, node) :: rest, s => by
    rw [visitAll, visitAll, visit_congr hrecursive hextensions]
    simp only [visitAll_congr hrecursive hextensions directory rest]

end

/-- Discovery depends on how deep it goes and on the extensions alone. -/
theorem discover_congr (hrecursive : config.recursive = config'.recursive)
    (hextensions : config.extensions = config'.extensions) (t : FileTree) (directory : String) :
    discover config t directory = discover config' t directory := by
  simp only [discover, visitDirectory, hrecursive, hextensions,
    visitAll_congr hrecursive hextensions]

end

/-! ## A directory that cannot be entered -/

/-- The working directory with slashes behind its dot. -/
def slashes : Nat → String
  | 0 => "."
  | n + 1 => slashes n ++ "/"

theorem toList_slashes (n : Nat) : (slashes n).toList = '.' :: List.replicate n '/' := by
  induction n with
  | zero => rfl
  | succ n ih => simp [slashes, ih, List.replicate_succ']

theorem utf8ByteSize_slashes (n : Nat) : (slashes n).utf8ByteSize = n + 1 := by
  induction n with
  | zero => rfl
  | succ n ih => rw [slashes, String.utf8ByteSize_append, ih]; rfl

theorem names_slashes (n : Nat) : Path.names (slashes n) = "." :: List.replicate n "" := by
  have hsplit : Path.splitChars (List.replicate n '/') = List.replicate (n + 1) [] := by
    induction n with
    | zero => rfl
    | succ n ih => simpa [Path.splitChars, List.replicate_succ] using ih
  rw [Path.names, toList_slashes, Path.splitChars, if_neg (by decide), hsplit]
  simp [List.replicate_succ]

/-- Empty names lead nowhere else. -/
theorem walk_replicate_empty {allowed : Trail → List String → Bool} {links : Nat} {here : Trail}
    (h : (t.nodeAt here).isDirectory = true) (n : Nat) :
    t.walk allowed links here (List.replicate n "") = .ok here := by
  induction n with
  | zero => rw [List.replicate_zero, FileTree.walk]
  | succ n ih =>
    rw [List.replicate_succ, FileTree.walk, h, if_neg (by decide), if_pos (by decide), ih]

theorem join_slashes (n : Nat) (name : String) :
    join (slashes (n + 1)) name = slashes (n + 1) ++ name := by
  rw [join, if_pos (by simp [slashes])]

/-- A directory with a file, and with a directory that has a longer name. -/
def unevenTree : FileTree where
  root := .directory [("b.scala", .file (.bytes [])), ("subdirectory", .directory [])]

theorem node?_slashes {n : Nat} (h : n < FileTree.maxPath) :
    unevenTree.node? (slashes n) = .ok unevenTree.root := by
  have hnul : (slashes n).toList.contains '\x00' = false := by
    rw [toList_slashes]
    simp
  have hempty : (slashes n).isEmpty = false := by
    cases n <;> simp [slashes]
  have hfits : FileTree.fits (slashes n) = true := by
    rw [FileTree.fits, utf8ByteSize_slashes]
    exact decide_eq_true h
  have habsolute : Path.isAbsolute (slashes n) = false := by
    rw [Path.isAbsolute, toList_slashes]
    rfl
  rw [FileTree.node?, FileTree.resolve, FileTree.follow, hnul, hempty, hfits, habsolute,
    names_slashes, FileTree.start_eq_nil rfl]
  simp only [Bool.false_eq_true, Bool.not_true, if_false]
  rw [FileTree.walk, if_neg (by decide), if_pos (by decide), walk_replicate_empty rfl]
  rfl

/-- The file counts, but the search fails at the directory behind it. -/
theorem discover_slashes {n : Nat} (hshort : n + 9 ≤ FileTree.maxPath)
    (hlong : FileTree.maxPath < n + 14) :
    (∃ message, (discover {} unevenTree (slashes (n + 1))).value =
        .error (.traversal (slashes (n + 1) ++ "subdirectory") message)) ∧
      IsMatch {} unevenTree (slashes (n + 1)) (slashes (n + 1) ++ "b.scala") := by
  have hnode := node?_slashes (n := n + 1) (by omega)
  have hfile : FileTree.fits (slashes (n + 1) ++ "b.scala") = true := by
    rw [FileTree.fits, String.utf8ByteSize_append, utf8ByteSize_slashes]
    exact decide_eq_true hshort
  have hdirectory : FileTree.fits (slashes (n + 1) ++ "subdirectory") = false := by
    rw [FileTree.fits, String.utf8ByteSize_append, utf8ByteSize_slashes]
    exact decide_eq_false (Nat.not_le_of_lt hlong)
  have hextension : hasExtension ["scala"] "b.scala" = true := by decide
  have hmem : ("b.scala", Node.file (.bytes [])) ∈ unevenTree.root.entries := List.mem_cons_self
  have hmatch : IsMatch {} unevenTree _ _ := (isMatch_join_iff hnode hmem rfl).2 (by
    rw [hextension, leadsToFile, join_slashes, hfile]
    rfl)
  have hinner : ("subdirectory", Node.directory []) ∈ unevenTree.root.entries :=
    List.mem_cons_of_mem _ List.mem_cons_self
  obtain ⟨message, hlist⟩ := (FileTree.exists_list_join_error_iff hnode hinner).2
    (Or.inl (by rw [join_slashes, hdirectory]))
  rw [join_slashes] at hmatch hlist
  refine ⟨⟨message, ?_⟩, hmatch⟩
  rw [value_discover hnode (FileTree.list_of_refusals_nil hnode rfl)]
  simp [visitAll, visit, visitFile, leadsToFile, hextension, hfile, hlist, limit, join_slashes,
    push]

/-- A directory with a file that counts, and nothing comes back. -/
theorem discover_fails_at_long_path :
    (∃ e, (discover {} unevenTree (slashes 4087)).value = .error e) ∧
      unevenTree.exists? (slashes 4087) = true ∧ unevenTree.isDirectory (slashes 4087) = true ∧
      IsMatch {} unevenTree (slashes 4087) (slashes 4087 ++ "b.scala") := by
  have hnode := node?_slashes (n := 4087) (by decide)
  obtain ⟨⟨message, hvalue⟩, hmatch⟩ := discover_slashes (n := 4086) (by decide) (by decide)
  refine ⟨⟨_, hvalue⟩, ?_, ?_, hmatch⟩
  · rw [FileTree.exists?, hnode]
  · rw [FileTree.isDirectory, hnode]
    rfl

end ScalaLex
