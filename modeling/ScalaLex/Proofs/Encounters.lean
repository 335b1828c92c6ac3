import ScalaLex.Batch.Discovery
import ScalaLex.Proofs.EntryPaths

/-!
# What a search comes across

A search that nothing stops comes across a list of files that count and of directories that it
cannot list, each in front of what lies in it (`Encounter`, `encountersAll`). The files are those
that lie below the directory, lead to a regular file and have one of the extensions (`IsMatch`,
`file_mem_encountersAll_iff`), and a directory that cannot be listed has a path that is too long or
is refused by the operating system (`IsBarred`, `exists_blocked_mem`).

The list is in the order of paths (`pairwise_encountersAll`) : the entries of a directory stand in
the order of their names, and what a search comes across in an entry has the name of that entry
behind the directory (`components_of_mem`).
-/

namespace ScalaLex

open ScalaLex.Path (isName join)

/-- What a search comes across. -/
inductive Encounter where
  /-- A file that counts. -/
  | file (path : String)
  /-- A directory that cannot be listed, and what the operating system tells of it. -/
  | blocked (path message : String)
deriving Repr, DecidableEq, Inhabited

namespace Encounter

/-- The path at which the search comes across it. -/
def path : Encounter → String
  | file path => path
  | blocked path _ => path

/-- The path of a file that counts. -/
def file? : Encounter → Option String
  | file path => some path
  | blocked _ _ => none

theorem filterMap_file?_map_file (ps : List String) : (ps.map file).filterMap file? = ps := by
  rw [List.filterMap_map]
  exact List.filterMap_some

end Encounter

namespace Search

variable {config : BatchPreferences} {t : FileTree} {directory name path : String} {node : Node}
  {entries : List (String × Node)} {s s' : Search} {es fs : List Encounter} {e : Encounter}
  {r : Except BatchError Search} {error : BatchError}

/-! ## What a search comes across -/

/-- The directory at a path, if it cannot be listed. -/
def barriers (t : FileTree) (path : String) : List Encounter :=
  match t.list path with
  | .error message => [.blocked path message]
  | .ok _ => []

mutual

/-- What a search that nothing stops comes across in an entry `name` of `directory`. Nothing can be
looked up in a directory whose path is too long. -/
def encounters (config : BatchPreferences) (t : FileTree) (directory name : String) :
    Node → List Encounter
  | .directory entries =>
    if !config.recursive then []
    else barriers t (join directory name) ++
      if FileTree.fits (join directory name) then
        encountersAll config t (join directory name) entries
      else []
  | node =>
    if hasExtension config.extensions name && leadsToFile t (join directory name) node
    then [.file (join directory name)]
    else []

/-- What a search that nothing stops comes across in the entries of a directory. -/
def encountersAll (config : BatchPreferences) (t : FileTree) (directory : String) :
    List (String × Node) → List Encounter
  | [] => []
  | (name, node) :: rest =>
    encounters config t directory name node ++ encountersAll config t directory rest

end

theorem encountersAll_eq_flatMap (config : BatchPreferences) (t : FileTree) (directory : String)
    (entries : List (String × Node)) : encountersAll config t directory entries =
      entries.flatMap fun e => encounters config t directory e.1 e.2 := by
  induction entries with
  | nil => rfl
  | cons e rest ih => rw [encountersAll, ih, List.flatMap_cons]

theorem mem_barriers_iff : e ∈ barriers t path ↔
    ∃ message, t.list path = .error message ∧ e = .blocked path message := by
  rw [barriers]
  cases t.list path <;> simp

theorem mem_encountersAll_iff : e ∈ encountersAll config t directory entries ↔
    ∃ x ∈ entries, e ∈ encounters config t directory x.1 x.2 := by
  rw [encountersAll_eq_flatMap, List.mem_flatMap]

/-! ## What the files are -/

/-- An entry at a path : in the directory or, if the search is recursive, below it, through
directories and no links. -/
inductive Below (config : BatchPreferences) :
    String → List (String × Node) → String → Node → Prop
  | entry {directory name : String} {entries : List (String × Node)} {node : Node}
      (mem : (name, node) ∈ entries) : Below config directory entries (join directory name) node
  | inner {directory name path : String} {entries inner : List (String × Node)} {node : Node}
      (recursive : config.recursive = true) (mem : (name, .directory inner) ∈ entries)
      (below : Below config (join directory name) inner path node) :
      Below config directory entries path node

/-- A file that a search of a directory is for : what lies there is no directory, the path leads
to a regular file, and its extension is one of those asked for. -/
structure IsMatch (config : BatchPreferences) (t : FileTree) (directory path : String) :
    Prop where
  below : ∃ entries node, t.node? directory = .ok (.directory entries) ∧
    Below config directory entries path node ∧ node.isDirectory = false
  isFile : t.isFile path = true
  extension : ∃ a ∈ config.extensions, ∃ b, Path.extension? path = some b ∧
    Text.eqIgnoreAsciiCase a b = true

/-- A directory that a recursive search is to list, and whose path is too long for that or which the
operating system refuses. -/
structure IsBarred (config : BatchPreferences) (t : FileTree) (directory path : String) :
    Prop where
  recursive : config.recursive = true
  below : ∃ entries inner, t.node? directory = .ok (.directory entries) ∧
    Below config directory entries path (.directory inner)
  barred : FileTree.fits path = false ∨ t.Refuses path

/-- A directory has a shorter path than what lies below it. -/
theorem Below.fits (h : Below config directory entries path node)
    (hpath : FileTree.fits path = true) : FileTree.fits directory = true := by
  induction h with
  | entry mem => exact FileTree.fits_of_fits_join hpath
  | inner recursive mem below ih => exact FileTree.fits_of_fits_join (ih hpath)

/-- The path goes on from the directory with the name of one of its entries. -/
theorem Below.components (h : Below config directory entries path node)
    (hdirectory : directory ≠ "") (hentries : Node.areOrdered none entries = true) :
    ∃ x ∈ entries, ∃ as,
      Path.components path = Path.components directory ++ .name x.1 :: as := by
  induction h with
  | entry mem =>
    have hname := ((Node.areOrdered_iff.1 hentries).1 _ mem).1
    exact ⟨_, mem, [], Path.components_join hdirectory hname⟩
  | inner recursive mem below ih =>
    obtain ⟨hname, -, hinner⟩ := (Node.areOrdered_iff.1 hentries).1 _ mem
    obtain ⟨x, -, as, has⟩ := ih (Path.join_ne_empty hdirectory _) hinner
    refine ⟨_, mem, .name x.1 :: as, ?_⟩
    rw [has, Path.components_join hdirectory hname, List.append_assoc, List.singleton_append]

/-- The extension of an entry's path is looked at in its name. -/
theorem hasExtension_iff (hdirectory : directory ≠ "") (hname : isName name = true) :
    hasExtension config.extensions name = true ↔ ∃ a ∈ config.extensions, ∃ b,
      Path.extension? (join directory name) = some b ∧ Text.eqIgnoreAsciiCase a b = true := by
  rw [hasExtension, Path.extension?_join hdirectory hname]
  cases Path.extensionOfName? name <;> simp

theorem leadsToFile_eq_isFile (h : t.node? directory = .ok (.directory entries))
    (hmem : (name, node) ∈ entries) (hnode : node.isDirectory = false) :
    leadsToFile t (join directory name) node = t.isFile (join directory name) := by
  cases node with
  | file content => rw [FileTree.isFile_join h hmem, leadsToFile]
  | link target => rfl
  | directory inner => cases hnode

/-- The search comes across an entry that is no directory just if it counts. -/
theorem encounters_of_not_directory (config : BatchPreferences) (t : FileTree)
    (directory name : String) (hnode : node.isDirectory = false) :
    encounters config t directory name node =
      if hasExtension config.extensions name && leadsToFile t (join directory name) node
      then [.file (join directory name)] else [] := by
  cases node with
  | file content => rw [encounters]; simp
  | link target => rw [encounters]; simp
  | directory inner => cases hnode

/-- A recursive search comes across a directory that cannot be listed, and across what lies in a
directory that can be looked up. -/
theorem mem_encounters_directory_iff {inner : List (String × Node)}
    (h : t.node? directory = .ok (.directory entries))
    (hmem : (name, .directory inner) ∈ entries) :
    e ∈ encounters config t directory name (.directory inner) ↔ config.recursive = true ∧
      (e ∈ barriers t (join directory name) ∨
        t.node? (join directory name) = .ok (.directory inner) ∧
          e ∈ encountersAll config t (join directory name) inner) := by
  rw [encounters]
  cases config.recursive with
  | false => simp
  | true =>
    cases hfits : FileTree.fits (join directory name) with
    | false =>
      have hnode : t.node? (join directory name) ≠ .ok (.directory inner) := fun hnode => by
        obtain ⟨here, hresolve, -⟩ := FileTree.exists_resolve_of_node? hnode
        rw [FileTree.fits_of_resolve hresolve] at hfits
        cases hfits
      simp [hnode]
    | true => simp [FileTree.node?_join h hmem (fun _ => Node.noConfusion) hfits]

theorem isMatch_join_iff (h : t.node? directory = .ok (.directory entries))
    (hmem : (name, node) ∈ entries) (hnode : node.isDirectory = false) :
    IsMatch config t directory (join directory name) ↔
      (hasExtension config.extensions name && leadsToFile t (join directory name) node) = true := by
  rw [Bool.and_eq_true, leadsToFile_eq_isFile h hmem hnode,
    hasExtension_iff (FileTree.ne_empty_of_node? h) (FileTree.isName_of_mem h hmem)]
  constructor
  · exact fun hmatch => ⟨hmatch.extension, hmatch.isFile⟩
  · exact fun ⟨extension, isFile⟩ => ⟨⟨entries, node, h, .entry hmem, hnode⟩, isFile, extension⟩

/-- What the search of a directory is to come across. -/
def Expects (config : BatchPreferences) (t : FileTree) (directory : String) : Encounter → Prop
  | .file path => IsMatch config t directory path
  | .blocked path _ => IsBarred config t directory path

/-- A recursive search expects of a directory what it expects of those in it. -/
theorem Expects.inner {inner : List (String × Node)} (recursive : config.recursive = true)
    (h : t.node? directory = .ok (.directory entries)) (hmem : (name, .directory inner) ∈ entries)
    (hinner : t.node? (join directory name) = .ok (.directory inner))
    (he : Expects config t (join directory name) e) : Expects config t directory e := by
  cases e with
  | file path =>
    obtain ⟨entries', node, hentries', below, hnode⟩ := he.below
    cases hinner.symm.trans hentries'
    exact ⟨⟨entries, node, h, .inner recursive hmem below, hnode⟩, he.isFile, he.extension⟩
  | blocked path message =>
    obtain ⟨entries', inner', hentries', below⟩ := he.below
    cases hinner.symm.trans hentries'
    exact ⟨recursive, ⟨entries, inner', h, .inner recursive hmem below⟩, he.barred⟩

theorem Expects.exists_below (he : Expects config t directory e)
    (h : t.node? directory = .ok (.directory entries)) :
    ∃ node, Below config directory entries e.path node := by
  cases e with
  | file path =>
    obtain ⟨entries', node, hentries', below, -⟩ := he.below
    cases h.symm.trans hentries'
    exact ⟨node, below⟩
  | blocked path message =>
    obtain ⟨entries', inner, hentries', below⟩ := he.below
    cases h.symm.trans hentries'
    exact ⟨_, below⟩

theorem expects_of_not_directory (h : t.node? directory = .ok (.directory entries))
    (hmem : (name, node) ∈ entries) (hnode : node.isDirectory = false)
    (he : e ∈ encounters config t directory name node) : Expects config t directory e := by
  rw [encounters_of_not_directory config t directory name hnode] at he
  split at he
  · rename_i hcounts
    rw [List.mem_singleton.1 he]
    exact (isMatch_join_iff h hmem hnode).2 hcounts
  · cases he

/-- A search comes across nothing else. -/
theorem expects_of_mem : ∀ (directory name : String) (node : Node)
    {entries : List (String × Node)}, t.node? directory = .ok (.directory entries) →
      (name, node) ∈ entries → e ∈ encounters config t directory name node →
        Expects config t directory e
  | _, _, .file _, _, h, hmem, he => expects_of_not_directory h hmem rfl he
  | _, _, .link _, _, h, hmem, he => expects_of_not_directory h hmem rfl he
  | directory, name, .directory inner, entries, h, hmem, he => by
    obtain ⟨hrecursive, hbarrier | ⟨hinner, he⟩⟩ := (mem_encounters_directory_iff h hmem).1 he
    · obtain ⟨message, hlist, rfl⟩ := mem_barriers_iff.1 hbarrier
      exact ⟨hrecursive, ⟨entries, inner, h, .entry hmem⟩,
        (FileTree.exists_list_join_error_iff h hmem).1 ⟨message, hlist⟩⟩
    · obtain ⟨x, hx, he⟩ := mem_encountersAll_iff.1 he
      exact .inner hrecursive h hmem hinner
        (expects_of_mem (join directory name) x.1 x.2 hinner hx he)
termination_by _ _ node => sizeOf node
decreasing_by exact Node.sizeOf_lt_of_mem hx

/-- A search comes across every file that counts. -/
theorem file_mem_of_below (h : t.node? directory = .ok (.directory entries))
    (below : Below config directory entries path node) (hnode : node.isDirectory = false)
    (hfile : t.isFile path = true) (hextension : ∃ a ∈ config.extensions, ∃ b,
      Path.extension? path = some b ∧ Text.eqIgnoreAsciiCase a b = true) :
    .file path ∈ encountersAll config t directory entries := by
  induction below with
  | entry mem =>
    refine mem_encountersAll_iff.2 ⟨_, mem, ?_⟩
    have hmatch : IsMatch config t _ _ := ⟨⟨_, _, h, .entry mem, hnode⟩, hfile, hextension⟩
    rw [encounters_of_not_directory _ _ _ _ hnode,
      if_pos ((isMatch_join_iff h mem hnode).1 hmatch)]
    exact List.mem_singleton_self _
  | inner recursive mem below ih =>
    have hfits := below.fits (FileTree.fits_of_isFile hfile)
    have hinner := FileTree.node?_join h mem (fun _ => Node.noConfusion) hfits
    refine mem_encountersAll_iff.2 ⟨_, mem, (mem_encounters_directory_iff h mem).2 ?_⟩
    exact ⟨recursive, Or.inr ⟨hinner, ih hinner hnode hfile hextension⟩⟩

theorem file_mem_encountersAll_iff (h : t.node? directory = .ok (.directory entries)) :
    .file path ∈ encountersAll config t directory entries ↔ IsMatch config t directory path := by
  constructor
  · intro he
    obtain ⟨x, hx, he⟩ := mem_encountersAll_iff.1 he
    exact expects_of_mem directory x.1 x.2 h hx he
  · intro hmatch
    obtain ⟨entries', node, hentries', below, hnode⟩ := hmatch.below
    cases h.symm.trans hentries'
    exact file_mem_of_below h below hnode hmatch.isFile hmatch.extension

/-- Before a directory that cannot be listed, or at it, a search comes across such a one. -/
theorem exists_blocked_mem (recursive : config.recursive = true) {inner : List (String × Node)}
    (h : t.node? directory = .ok (.directory entries))
    (below : Below config directory entries path (.directory inner))
    (hbarred : FileTree.fits path = false ∨ t.Refuses path) : ∃ q message,
      .blocked q message ∈ encountersAll config t directory entries ∧
        (q = path ∨ Path.precedes q path = true) := by
  have hblocked : ∀ {directory name : String} {entries inner : List (String × Node)},
      t.node? directory = .ok (.directory entries) → (name, .directory inner) ∈ entries →
        (FileTree.fits (join directory name) = false ∨ t.Refuses (join directory name)) →
          ∃ message, .blocked (join directory name) message ∈
            encountersAll config t directory entries := by
    intro directory name entries inner h mem hbarred
    obtain ⟨message, hlist⟩ := (FileTree.exists_list_join_error_iff h mem).2 hbarred
    refine ⟨message, mem_encountersAll_iff.2 ⟨_, mem, ?_⟩⟩
    exact (mem_encounters_directory_iff h mem).2
      ⟨recursive, Or.inl (mem_barriers_iff.2 ⟨message, hlist, rfl⟩)⟩
  generalize hnode : Node.directory inner = node at below
  induction below with
  | entry mem =>
    subst hnode
    obtain ⟨message, hmessage⟩ := hblocked h mem hbarred
    exact ⟨_, message, hmessage, Or.inl rfl⟩
  | @inner directory name path entries inner' node _ mem below ih =>
    cases hfits : FileTree.fits (join directory name) with
    | true =>
      have hinner := FileTree.node?_join h mem (fun _ => Node.noConfusion) hfits
      obtain ⟨q, message, hq, hle⟩ := ih hinner hbarred hnode
      refine ⟨q, message, mem_encountersAll_iff.2 ⟨_, mem, ?_⟩, hle⟩
      exact (mem_encounters_directory_iff h mem).2 ⟨recursive, Or.inr ⟨hinner, hq⟩⟩
    | false =>
      obtain ⟨message, hmessage⟩ := hblocked h mem (Or.inl hfits)
      refine ⟨_, message, hmessage, Or.inr ?_⟩
      obtain ⟨hname, -, hordered⟩ :=
        (Node.areOrdered_iff.1 (FileTree.areOrdered_of_node? h)).1 _ mem
      obtain ⟨x, -, as, has⟩ :=
        below.components (Path.join_ne_empty (FileTree.ne_empty_of_node? h) name) hordered
      exact Path.precedes_of_components_prefix has

/-! ## The order of the list -/

/-- What lies in a directory has a name behind the components of the directory. -/
theorem exists_components_of_mem (h : t.node? directory = .ok (.directory entries))
    (he : e ∈ encountersAll config t directory entries) : ∃ a as,
      Path.components e.path = Path.components directory ++ .name a :: as := by
  obtain ⟨x, hx, he⟩ := mem_encountersAll_iff.1 he
  obtain ⟨node, below⟩ := (expects_of_mem directory x.1 x.2 h hx he).exists_below h
  obtain ⟨y, -, as, has⟩ :=
    below.components (FileTree.ne_empty_of_node? h) (FileTree.areOrdered_of_node? h)
  exact ⟨y.1, as, has⟩

/-- What a search comes across in an entry has the name of that entry behind the directory. -/
theorem components_of_mem (h : t.node? directory = .ok (.directory entries))
    (hmem : (name, node) ∈ entries) (he : e ∈ encounters config t directory name node) :
    ∃ as, Path.components e.path = Path.components directory ++ .name name :: as := by
  have hself := Path.components_join (FileTree.ne_empty_of_node? h) (FileTree.isName_of_mem h hmem)
  cases hnode : node.isDirectory with
  | false =>
    rw [encounters_of_not_directory config t directory name hnode] at he
    split at he
    · rw [List.mem_singleton.1 he]
      exact ⟨[], hself⟩
    · cases he
  | true =>
    cases node with
    | file content => cases hnode
    | link target => cases hnode
    | directory inner =>
      obtain ⟨-, hbarrier | ⟨hinner, he⟩⟩ := (mem_encounters_directory_iff h hmem).1 he
      · obtain ⟨message, -, rfl⟩ := mem_barriers_iff.1 hbarrier
        exact ⟨[], hself⟩
      · obtain ⟨a, as, has⟩ := exists_components_of_mem hinner he
        refine ⟨.name a :: as, ?_⟩
        rw [has, hself, List.append_assoc, List.singleton_append]

/-- One encounter stands before the other one. -/
def IsBefore (e f : Encounter) : Prop := Path.precedes e.path f.path = true

theorem pairwise_encountersAll_of (h : t.node? directory = .ok (.directory entries))
    (hpairwise : ∀ x ∈ entries, (encounters config t directory x.1 x.2).Pairwise IsBefore) :
    (encountersAll config t directory entries).Pairwise IsBefore := by
  rw [encountersAll_eq_flatMap, List.pairwise_flatMap]
  refine ⟨hpairwise, ?_⟩
  have hnames := (Node.areOrdered_iff.1 (FileTree.areOrdered_of_node? h)).2
  refine hnames.imp_of_mem fun {x y} hx hy hxy e he f hf => ?_
  obtain ⟨as, has⟩ := components_of_mem h hx he
  obtain ⟨bs, hbs⟩ := components_of_mem h hy hf
  exact Path.precedes_of_components has hbs hxy

theorem pairwise_encounters : ∀ (directory name : String) (node : Node)
    {entries : List (String × Node)}, t.node? directory = .ok (.directory entries) →
      (name, node) ∈ entries → (encounters config t directory name node).Pairwise IsBefore
  | directory, name, .file content, _, h, hmem => by
    rw [encounters_of_not_directory config t directory name rfl]
    split <;> simp
  | directory, name, .link target, _, h, hmem => by
    rw [encounters_of_not_directory config t directory name rfl]
    split <;> simp
  | directory, name, .directory inner, _, h, hmem => by
    rw [encounters]
    cases config.recursive with
    | false => exact .nil
    | true =>
      have hbarriers : (barriers t (join directory name)).Pairwise IsBefore := by
        rw [barriers]
        split <;> simp
      cases hfits : FileTree.fits (join directory name) with
      | false => simpa using hbarriers
      | true =>
        have hinner := FileTree.node?_join h hmem (fun _ => Node.noConfusion) hfits
        refine List.pairwise_append.2 ⟨hbarriers, pairwise_encountersAll_of hinner fun x hx =>
          pairwise_encounters (join directory name) x.1 x.2 hinner hx, fun e he f hf => ?_⟩
        -- the directory stands before what lies in it
        obtain ⟨message, -, rfl⟩ := mem_barriers_iff.1 he
        obtain ⟨a, as, has⟩ := exists_components_of_mem hinner hf
        exact Path.precedes_of_components_prefix has
termination_by _ _ node => sizeOf node
decreasing_by exact Node.sizeOf_lt_of_mem hx

/-- A search comes across things in the order of their paths. -/
theorem pairwise_encountersAll (config : BatchPreferences)
    (h : t.node? directory = .ok (.directory entries)) :
    (encountersAll config t directory entries).Pairwise IsBefore :=
  pairwise_encountersAll_of h fun x hx => pairwise_encounters directory x.1 x.2 h hx

end Search

end ScalaLex
