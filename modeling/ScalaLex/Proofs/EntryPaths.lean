import ScalaLex.Tree.Lookup

/-!
# Paths of entries

The path of an entry of a directory is that of the directory with the name of the entry behind
it. It has one name more (`names_join`) and one component more (`components_join`), so two such
paths stand in the order of the names at which they part (`precedes_of_components`), and a
directory stands before what lies in it (`precedes_of_components_prefix`).

Where a path leads to a directory, the path of an entry that is no link leads to the entry, if
it is short enough (`resolve_join`). A path that is too long is too long with more names behind
it, too (`fits_of_fits_join`). So a directory in another one can be listed unless its path is too
long or the operating system refuses it (`exists_list_join_error_iff`).
-/

namespace ScalaLex

namespace Path

variable {directory name : String} {s u : List Char} {as bs cs : List Component}

/-! ## Names of a joined path -/

theorem splitChars_ne_nil (s : List Char) : splitChars s ≠ [] := by
  cases s with
  | nil => exact List.cons_ne_nil _ _
  | cons c s =>
    rw [splitChars]
    repeat' split
    all_goals exact List.cons_ne_nil _ _

theorem splitChars_append_slash (s u : List Char) :
    splitChars (s ++ '/' :: u) = splitChars s ++ splitChars u := by
  induction s with
  | nil => simp [splitChars]
  | cons c s ih =>
    obtain ⟨piece, pieces, hs⟩ := List.exists_cons_of_ne_nil (splitChars_ne_nil s)
    rw [List.cons_append, splitChars, splitChars, ih, hs]
    split <;> rfl

theorem splitChars_of_not_mem (h : '/' ∉ s) : splitChars s = [s] := by
  induction s with
  | nil => rfl
  | cons c s ih =>
    have hc : c ≠ '/' := (List.ne_of_not_mem_cons h).symm
    rw [splitChars, if_neg hc, ih (List.not_mem_of_not_mem_cons h)]

theorem isName_iff : isName name = true ↔ isHere name = false ∧ name ≠ ".." ∧
    name.utf8ByteSize ≤ maxName ∧ '/' ∉ name.toList ∧ '\x00' ∉ name.toList := by
  simp only [isName, Bool.and_eq_true, Bool.not_eq_true', bne_iff_ne, decide_eq_true_eq,
    List.all_eq_true, and_assoc]
  refine and_congr_right fun _ => and_congr_right fun _ => and_congr_right fun _ => ?_
  constructor
  · exact fun h => ⟨fun hc => (h _ hc).1 rfl, fun hc => (h _ hc).2 rfl⟩
  · rintro ⟨hslash, hnul⟩ c hc
    refine ⟨?_, ?_⟩
    · rintro rfl
      exact hslash hc
    · rintro rfl
      exact hnul hc

/-- A slash stands between the directory and the name, and it can be that of the directory. -/
theorem exists_toList_join (h : directory ≠ "") (name : String) : ∃ s,
    (join directory name).toList = s ++ '/' :: name.toList ∧
      (directory.toList = s ∨ directory.toList = s ++ ['/']) := by
  have hempty : directory.isEmpty = false := by simpa using h
  rw [join, hempty, Bool.false_or]
  split
  · rename_i hslash
    obtain ⟨s, hs⟩ := List.getLast?_eq_some_iff.1 (beq_iff_eq.1 hslash)
    refine ⟨s, ?_, Or.inr hs⟩
    rw [String.toList_append, hs, List.append_assoc, List.singleton_append]
  · refine ⟨directory.toList, ?_, Or.inl rfl⟩
    rw [String.toList_append, String.toList_append, List.append_assoc]
    rfl

/-- A joined path has the names of the directory and one more. -/
theorem names_join (h : directory ≠ "") (hname : isName name = true) : ∃ ns,
    ns ≠ [] ∧ names (join directory name) = ns ++ [name] ∧
      (names directory = ns ∨ names directory = ns ++ [""]) := by
  obtain ⟨s, hs, hdirectory⟩ := exists_toList_join h name
  refine ⟨(splitChars s).map String.ofList, ?_, ?_, ?_⟩
  · simpa using splitChars_ne_nil s
  · rw [names, hs, splitChars_append_slash, splitChars_of_not_mem (isName_iff.1 hname).2.2.2.1,
      List.map_append, List.map_singleton, String.ofList_toList]
  · rcases hdirectory with hdirectory | hdirectory
    · exact Or.inl (by rw [names, hdirectory])
    · refine Or.inr ?_
      rw [names, hdirectory, splitChars_append_slash, List.map_append]
      rfl

theorem isAbsolute_join (h : directory ≠ "") (name : String) :
    isAbsolute (join directory name) = isAbsolute directory := by
  obtain ⟨s, hs, hdirectory⟩ := exists_toList_join h name
  rw [isAbsolute, isAbsolute, hs]
  cases s with
  | nil =>
    rcases hdirectory with hdirectory | hdirectory
    · exact absurd (String.toList_eq_nil_iff.1 hdirectory) h
    · rw [hdirectory]
      rfl
  | cons c s => rcases hdirectory with hdirectory | hdirectory <;> rw [hdirectory] <;> rfl

theorem join_ne_empty (h : directory ≠ "") (name : String) : join directory name ≠ "" := by
  obtain ⟨s, hs, -⟩ := exists_toList_join h name
  intro hempty
  rw [hempty] at hs
  simp at hs

theorem not_mem_toList_join {c : Char} (hc : c ≠ '/') (hdirectory : c ∉ directory.toList)
    (hname : c ∉ name.toList) : c ∉ (join directory name).toList := by
  unfold join
  split <;> simp [hdirectory, hname, hc]

theorem utf8ByteSize_le_join (directory name : String) :
    directory.utf8ByteSize ≤ (join directory name).utf8ByteSize := by
  unfold join
  split <;> simp only [String.utf8ByteSize_append] <;> omega

/-! ## Components of a joined path -/

theorem components_join (h : directory ≠ "") (hname : isName name = true) :
    components (join directory name) = components directory ++ [.name name] := by
  obtain ⟨ns, hne, hjoin, hdirectory⟩ := names_join h hname
  obtain ⟨n, ns, rfl⟩ := List.exists_cons_of_ne_nil hne
  have hstart : start (join directory name) = start directory := by
    rw [start, start, isAbsolute_join h, hjoin]
    rcases hdirectory with hdirectory | hdirectory <;> rw [hdirectory] <;> rfl
  have hlast : Component.ofName? name = some (.name name) := by
    obtain ⟨hhere, hup, -⟩ := isName_iff.1 hname
    rw [Component.ofName?, hhere, if_neg Bool.false_ne_true, if_neg (by simpa using hup)]
  rw [components, components, hstart, hjoin, List.filterMap_append, List.append_assoc]
  congr 1
  rcases hdirectory with hdirectory | hdirectory
  · rw [hdirectory]
    exact congrArg _ (List.filterMap_cons_some hlast)
  · rw [hdirectory, List.filterMap_append]
    have hnone : [""].filterMap Component.ofName? = [] := rfl
    rw [hnone, List.append_nil]
    exact congrArg _ (List.filterMap_cons_some hlast)

/-- The extension of a path is that of the name behind its last slash. -/
theorem extension?_of_toList {path : String} (h : path.toList = s ++ '/' :: name.toList)
    (hname : isName name = true) : extension? path = extensionOfName? name := by
  obtain ⟨hhere, hup, -, hslash, -⟩ := isName_iff.1 hname
  have hfile : fileName? path = some name := by
    rw [fileName?, names, h, splitChars_append_slash, splitChars_of_not_mem hslash,
      List.map_append, List.map_singleton, String.ofList_toList, List.filter_append,
      List.filter_cons_of_pos (by simp [hhere])]
    simp [hup]
  rw [extension?, hfile, Option.bind_some]

/-- The extension of a joined path is that of the name. -/
theorem extension?_join (h : directory ≠ "") (hname : isName name = true) :
    extension? (join directory name) = extensionOfName? name := by
  obtain ⟨s, hs, -⟩ := exists_toList_join h name
  exact extension?_of_toList hs hname

/-- The extension of an absolute path is that of its last name. -/
theorem extension?_absolute (ns : List String) (hname : isName name = true) :
    extension? (absolute (ns ++ [name])) = extensionOfName? name := by
  have hsplit : ∃ s, (absolute (ns ++ [name])).toList = s ++ '/' :: name.toList := by
    rw [absolute, String.toList_append, String.toList_intercalate]
    induction ns with
    | nil => exact ⟨[], by simp⟩
    | cons n ns ih =>
      obtain ⟨s, hs⟩ := ih
      refine ⟨'/' :: n.toList ++ s, ?_⟩
      obtain ⟨m, ms, hms⟩ := List.exists_cons_of_ne_nil (List.append_ne_nil_of_right_ne_nil
        (ns.map String.toList) (List.cons_ne_nil name.toList []))
      simp only [List.cons_append, List.map_cons, List.map_append, List.map_nil] at hs ⊢
      rw [hms] at hs ⊢
      rw [List.intercalate_cons_cons, List.append_assoc, List.append_assoc, ← hs]
      rfl
  obtain ⟨s, hs⟩ := hsplit
  exact extension?_of_toList hs hname

/-! ## The order of paths -/

theorem Component.not_precedes_self (a : Component) : a.precedes a = false := by
  simp [precedes, Text.not_precedes_self]

theorem Component.precedes_trans {a b c : Component} (hab : a.precedes b = true)
    (hbc : b.precedes c = true) : a.precedes c = true := by
  simp only [precedes, Bool.or_eq_true, Bool.and_eq_true, decide_eq_true_eq, beq_iff_eq]
    at hab hbc ⊢
  rcases hab with hab | ⟨hab, htext⟩
  · exact Or.inl (by omega)
  · rcases hbc with hbc | ⟨hbc, htext'⟩
    · exact Or.inl (by omega)
    · exact Or.inr ⟨hab.trans hbc, Text.precedes_trans htext htext'⟩

theorem not_precedesComponents_self (as : List Component) : precedesComponents as as = false := by
  induction as with
  | nil => rfl
  | cons a as ih => rw [precedesComponents, if_pos rfl, ih]

theorem precedesComponents_trans (hab : precedesComponents as bs = true)
    (hbc : precedesComponents bs cs = true) : precedesComponents as cs = true := by
  induction as generalizing bs cs with
  | nil =>
    cases cs with
    | nil => cases bs <;> cases hbc
    | cons c cs => rfl
  | cons a as ih =>
    cases bs with
    | nil => cases hab
    | cons b bs =>
      cases cs with
      | nil => cases hbc
      | cons c cs =>
        rw [precedesComponents] at hab hbc ⊢
        by_cases hb : a = b
        · subst hb
          rw [if_pos rfl] at hab
          by_cases hc : a = c
          · rw [if_pos hc] at hbc ⊢
            exact ih hab hbc
          · rwa [if_neg hc] at hbc ⊢
        · rw [if_neg hb] at hab
          by_cases hc : b = c
          · subst hc
            rwa [if_neg hb]
          · rw [if_neg hc] at hbc
            have hac := Component.precedes_trans hab hbc
            have hne : a ≠ c := by
              rintro rfl
              rw [Component.not_precedes_self] at hac
              cases hac
            rwa [if_neg hne]

theorem not_precedes_self (p : String) : precedes p p = false :=
  not_precedesComponents_self _

theorem precedes_trans {p q r : String} (h : precedes p q = true) (h' : precedes q r = true) :
    precedes p r = true :=
  precedesComponents_trans h h'

theorem not_precedes_of_precedes {p q : String} (h : precedes p q = true) :
    precedes q p = false := by
  refine Bool.eq_false_iff.2 fun h' => ?_
  have := precedes_trans h h'
  rw [not_precedes_self] at this
  cases this

/-- What is in order is not moved. -/
theorem sortOn_of_pairwise {α : Type} {path : α → String} {xs : List α}
    (h : xs.Pairwise fun x y => precedes (path x) (path y) = true) : sortOn path xs = xs :=
  List.mergeSort_of_pairwise (h.imp fun h => by rw [not_precedes_of_precedes h]; rfl)

/-- Putting things in order loses none. -/
theorem sortOn_perm {α : Type} (path : α → String) (xs : List α) : (sortOn path xs).Perm xs :=
  List.mergeSort_perm _ _

theorem precedesComponents_append_left (as bs cs : List Component) :
    precedesComponents (as ++ bs) (as ++ cs) = precedesComponents bs cs := by
  induction as with
  | nil => rfl
  | cons a as ih => rw [List.cons_append, List.cons_append, precedesComponents, if_pos rfl, ih]

/-- A directory comes before what lies in it. -/
theorem precedes_of_components_prefix {p q : String} {a : Component}
    (hq : components q = components p ++ a :: as) : precedes p q = true := by
  rw [precedes, hq]
  have := precedesComponents_append_left (components p) [] (a :: as)
  rwa [List.append_nil] at this

/-- The names at which two paths part decide. -/
theorem precedes_of_components {p q a b : String} (hp : components p = cs ++ .name a :: as)
    (hq : components q = cs ++ .name b :: bs) (h : Text.precedes a b = true) :
    precedes p q = true := by
  have hne : Component.name a ≠ .name b := by
    rintro ⟨⟩
    rw [Text.not_precedes_self] at h
    cases h
  rw [precedes, hp, hq, precedesComponents_append_left, precedesComponents, if_neg hne]
  simp [Component.precedes, Component.rank, Component.text, h]

end Path

namespace Node

open ScalaLex.Path (isName)

variable {entries : List (String × Node)} {name : String} {node : Node}

/-! ## Entries of a directory -/

theorem areOrdered_iff {after? : Option String} : areOrdered after? entries = true ↔
    (∀ e ∈ entries, isName e.1 = true ∧ after?.all (fun a => Text.precedes a e.1) = true ∧
      e.2.isOrdered = true) ∧
    entries.Pairwise fun e f => Text.precedes e.1 f.1 = true := by
  induction entries generalizing after? with
  | nil => simp [areOrdered]
  | cons e rest ih =>
    simp only [areOrdered, Bool.and_eq_true, ih, List.forall_mem_cons, List.pairwise_cons,
      Option.all_some]
    constructor
    · rintro ⟨⟨⟨hname, hafter⟩, hnode⟩, hrest, hpairwise⟩
      refine ⟨⟨⟨hname, hafter, hnode⟩, fun f hf => ?_⟩, fun f hf => (hrest f hf).2.1, hpairwise⟩
      obtain ⟨hf, hef, hordered⟩ := hrest f hf
      refine ⟨hf, ?_, hordered⟩
      cases after? with
      | none => rfl
      | some a => exact Text.precedes_trans hafter hef
    · rintro ⟨⟨⟨hname, hafter, hnode⟩, hrest⟩, hle, hpairwise⟩
      exact ⟨⟨⟨hname, hafter⟩, hnode⟩, fun f hf => ⟨(hrest f hf).1, hle f hf, (hrest f hf).2.2⟩,
        hpairwise⟩

theorem isOrdered_of_mem_entries {e : String × Node} (h : node.isOrdered = true)
    (he : e ∈ node.entries) : isName e.1 = true ∧ e.2.isOrdered = true := by
  cases node with
  | directory entries =>
    obtain ⟨hname, -, hordered⟩ := (areOrdered_iff.1 h).1 e he
    exact ⟨hname, hordered⟩
  | file content => cases he
  | link target => cases he

/-- An entry is smaller than the directory that it is in. -/
theorem sizeOf_lt_of_mem {e : String × Node} (he : e ∈ entries) :
    sizeOf e.2 < sizeOf (directory entries) := by
  have := List.sizeOf_lt_of_mem he
  obtain ⟨name, node⟩ := e
  simp only [Prod.mk.sizeOf_spec, directory.sizeOf_spec] at this ⊢
  omega

/-- An entry is found under its name. -/
theorem find?_of_mem (h : areOrdered none entries = true) (hmem : (name, node) ∈ entries) :
    entries.find? (·.1 == name) = some (name, node) := by
  induction entries with
  | nil => cases hmem
  | cons e rest ih =>
    rcases List.mem_cons.1 hmem with rfl | hmem
    · exact List.find?_cons_of_pos (beq_self_eq_true name)
    · have hne : e.1 ≠ name := fun he => by
        have := (List.pairwise_cons.1 (areOrdered_iff.1 h).2).1 _ hmem
        rw [he, Text.not_precedes_self] at this
        cases this
      rw [List.find?_cons_of_neg (by simpa using hne)]
      simp only [areOrdered, Bool.and_eq_true] at h
      exact ih (areOrdered_none h.2) hmem

end Node

namespace FileTree

open ScalaLex.Path (isName join)

variable {t : FileTree} {allowed : Trail → List String → Bool} {links : Nat} {here there : Trail}
  {ns ms : List String} {directory name : String} {entries : List (String × Node)} {node : Node}

/-! ## Looking up an entry -/

/-- A working directory without names is the root. -/
theorem start_eq_nil (h : t.workingDirectory = []) : t.start = [] := by
  have hwalk : t.walk anywhere maxLinks [] [] = .ok [] := by rw [walk]
  rw [start, h, hwalk]

/-- Names behind others are followed from where those lead. -/
theorem exists_walk_append (t : FileTree) (links : Nat) (here : Trail) (ns : List String) :
    ∃ links', ∀ ms, t.walk anywhere links here (ns ++ ms) =
      (t.walk anywhere links here ns).bind fun there => t.walk anywhere links' there ms := by
  fun_induction walk t anywhere links here ns with
  | case1 links here => exact ⟨links, fun ms => rfl⟩
  | case2 links here name rest hdirectory =>
    exact ⟨links, fun ms => by rw [List.cons_append, walk, if_pos hdirectory]; rfl⟩
  | case3 links here name rest hdirectory hhere ih =>
    obtain ⟨links', hms⟩ := ih
    exact ⟨links', fun ms => by rw [List.cons_append, walk, if_neg hdirectory, if_pos hhere, hms]⟩
  | case4 links here name rest hdirectory hhere hup ih =>
    obtain ⟨links', hms⟩ := ih
    exact ⟨links', fun ms => by
      rw [List.cons_append, walk, if_neg hdirectory, if_neg hhere, if_pos hup, hms]⟩
  | case9 here name rest hdirectory hhere hup hshort name' target hfind hplace links ih =>
    obtain ⟨links', hms⟩ := ih
    refine ⟨links', fun ms => ?_⟩
    rw [List.cons_append, walk, if_neg hdirectory, if_neg hhere, if_neg hup, if_neg hshort, hfind]
    simp only [dite_eq_ite] at hms ⊢
    rw [if_neg hplace, ← List.append_assoc, hms]
  | case11 links here name rest hdirectory hhere hup hshort entry hlink hfind hplace ih =>
    obtain ⟨links', hms⟩ := ih
    refine ⟨links', fun ms => ?_⟩
    rw [List.cons_append, walk, if_neg hdirectory, if_neg hhere, if_neg hup, if_neg hshort, hfind]
    split
    · rename_i heq
      cases heq
    · rename_i heq
      exact absurd (Option.some.inj heq) (hlink _ _)
    · rename_i heq
      rw [← Option.some.inj heq]
      exact hms ms
  | case7 | case10 => exact absurd ‹_› Bool.false_ne_true
  | case5 | case6 | case8 =>
    refine ⟨0, fun ms => ?_⟩
    rw [List.cons_append, walk]
    simp [*]
    rfl

/-- An empty name leads nowhere else. -/
theorem walk_empty_name (h : t.walk allowed links here [""] = .ok there) : there = here := by
  rw [walk] at h
  split at h
  · cases h
  · rw [if_pos (by rfl), walk] at h
    exact (Except.ok.inj h).symm

/-- A path that is a text, names something and is short enough is followed name by name. -/
theorem follow_eq_ok_iff : t.follow allowed directory = .ok here ↔
    ('\x00' ∉ directory.toList ∧ directory ≠ "" ∧ fits directory = true) ∧
      t.walk allowed maxLinks (if Path.isAbsolute directory then [] else t.start)
        (Path.names directory) = .ok here := by
  rw [follow]
  split
  · rename_i hnul
    exact iff_of_false (fun h => nomatch h)
      fun h => h.1.1 (List.contains_iff_mem.1 hnul)
  rename_i hnul
  split
  · rename_i hempty
    exact iff_of_false (fun h => nomatch h) fun h => h.1.2.1 (by simpa using hempty)
  rename_i hempty
  split
  · rename_i hlong
    exact iff_of_false (fun h => nomatch h) fun h => by
      rw [h.1.2.2] at hlong
      cases hlong
  rename_i hfits
  refine (and_iff_right ⟨?_, ?_, ?_⟩).symm
  · exact fun h => hnul (List.contains_iff_mem.2 h)
  · simpa using hempty
  · simpa using hfits

theorem isDirectory_of_find? {e : String × Node} {p : String × Node → Bool}
    (hfind : (t.nodeAt here).entries.find? p = some e) : (t.nodeAt here).isDirectory = true := by
  cases hnode : t.nodeAt here with
  | directory entries => rfl
  | file content =>
    rw [hnode] at hfind
    cases hfind
  | link target =>
    rw [hnode] at hfind
    cases hfind

/-- The name of an entry that is no link leads to the entry. -/
theorem walk_entry (hname : isName name = true)
    (hfind : (t.nodeAt here).entries.find? (·.1 == name) = some (name, node))
    (hlink : ∀ target, node ≠ .link target) {ns : List String}
    (hallowed : allowed ((name, node) :: here) ns = true) (links : Nat) :
    t.walk allowed links here (name :: ns) = t.walk allowed links ((name, node) :: here) ns := by
  obtain ⟨hhere, hup, hsize, -, -⟩ := Path.isName_iff.1 hname
  rw [walk, isDirectory_of_find? hfind, hhere, if_neg (by decide), if_neg (by decide),
    if_neg (by simpa using hup), if_neg (by omega), hfind]
  split
  · rename_i heq
    cases heq
  · rename_i target heq
    cases heq
    exact absurd rfl (hlink target)
  · rename_i heq
    cases heq
    rw [hallowed, if_neg (by decide)]

/-- The name of a link with a relative target leads where the names of the target lead. -/
theorem walk_link {target : String} (hname : isName name = true)
    (hfind : (t.nodeAt here).entries.find? (·.1 == name) = some (name, .link target))
    (hrelative : Path.isAbsolute target = false)
    (hallowed : allowed ((name, .link target) :: here) [] = true) (links : Nat)
    (ns : List String) : t.walk allowed (links + 1) here (name :: ns) =
      t.walk allowed links here (Path.names target ++ ns) := by
  obtain ⟨hhere, hup, hsize, -, -⟩ := Path.isName_iff.1 hname
  rw [walk, isDirectory_of_find? hfind, hhere, if_neg (by decide), if_neg (by decide),
    if_neg (by simpa using hup), if_neg (by omega), hfind]
  simp only [hallowed, hrelative]
  rfl

/-- The path of an entry that is no link leads to the entry, if it is short enough. -/
theorem resolve_join (h : t.resolve directory = .ok here) (hname : isName name = true)
    (hfind : (t.nodeAt here).entries.find? (·.1 == name) = some (name, node))
    (hlink : ∀ target, node ≠ .link target) (hfits : fits (join directory name) = true) :
    t.resolve (join directory name) = .ok ((name, node) :: here) := by
  obtain ⟨⟨hnul, hne, -⟩, hwalk⟩ := follow_eq_ok_iff.1 h
  obtain ⟨-, -, -, -, hname_nul⟩ := Path.isName_iff.1 hname
  have hentry : ∀ links, t.walk anywhere links here [name] = .ok ((name, node) :: here) := by
    intro links
    rw [walk_entry hname hfind hlink rfl, walk]
  refine follow_eq_ok_iff.2 ⟨⟨Path.not_mem_toList_join (by decide) hnul hname_nul,
    Path.join_ne_empty hne name, hfits⟩, ?_⟩
  obtain ⟨ns, -, hnames, hns⟩ := Path.names_join hne hname
  obtain ⟨links, hms⟩ := exists_walk_append t maxLinks
    (if Path.isAbsolute directory then [] else t.start) ns
  rw [Path.isAbsolute_join hne, hnames, hms]
  rcases hns with hns | hns
  · rw [← hns, hwalk]
    exact hentry links
  · -- the directory ends with a slash
    rw [hns, hms] at hwalk
    cases hthere : t.walk anywhere maxLinks
        (if Path.isAbsolute directory then [] else t.start) ns with
    | error e =>
      rw [hthere] at hwalk
      cases hwalk
    | ok there =>
      rw [hthere] at hwalk
      cases walk_empty_name hwalk
      exact hentry links

/-- A path that is too long leads nowhere. -/
theorem fits_of_resolve (h : t.resolve directory = .ok here) : fits directory = true :=
  (follow_eq_ok_iff.1 h).1.2.2

/-- A path with one name more is no shorter. -/
theorem fits_of_fits_join (h : fits (join directory name) = true) : fits directory = true := by
  unfold fits at h ⊢
  exact decide_eq_true (Nat.le_trans (Path.utf8ByteSize_le_join directory name)
    (of_decide_eq_true h))

/-! ## Order of what is looked up -/

theorem isOrdered_nodeAt (h : ∀ e ∈ here, e.2.isOrdered = true) :
    (t.nodeAt here).isOrdered = true := by
  cases here with
  | nil => exact t.isOrdered_root
  | cons e rest => exact h e List.mem_cons_self

theorem isOrdered_of_walk (h : t.walk allowed links here ns = .ok there)
    (hhere : ∀ e ∈ here, e.2.isOrdered = true) : ∀ e ∈ there, e.2.isOrdered = true := by
  fun_induction walk t allowed links here ns with
  | case1 links here =>
    cases h
    exact hhere
  | case3 links here name rest hdirectory hname ih => exact ih h hhere
  | case4 links here name rest hdirectory hname hup ih =>
    exact ih h fun e he => hhere e (List.mem_of_mem_tail he)
  | case9 here name rest hdirectory hname hup hshort name' target hfind hallowed links ih =>
    refine ih h fun e he => ?_
    split at he
    · cases he
    · exact hhere e he
  | case11 links here name rest hdirectory hname hup hshort entry hlink hfind hallowed ih =>
    refine ih h (List.forall_mem_cons.2 ⟨?_, hhere⟩)
    exact (Node.isOrdered_of_mem_entries (isOrdered_nodeAt (t := t) hhere)
      (List.mem_of_find?_eq_some hfind)).2
  | _ => cases h

/-- What a path leads to is ordered. -/
theorem isOrdered_of_resolve (h : t.resolve directory = .ok here) :
    (t.nodeAt here).isOrdered = true := by
  have hstart : ∀ e ∈ t.start, e.2.isOrdered = true := by
    unfold start
    split
    · rename_i hwalk
      exact isOrdered_of_walk hwalk (by simp)
    · simp
  refine isOrdered_nodeAt (isOrdered_of_walk (follow_eq_ok_iff.1 h).2 ?_)
  split
  · simp
  · exact hstart

/-! ## Directories and their entries -/

theorem exists_resolve_of_node? (h : t.node? directory = .ok node) :
    ∃ here, t.resolve directory = .ok here ∧ t.nodeAt here = node := by
  unfold node? at h
  cases hresolve : t.resolve directory with
  | ok here =>
    rw [hresolve] at h
    exact ⟨here, rfl, Except.ok.inj h⟩
  | error e =>
    rw [hresolve] at h
    cases h

theorem ne_empty_of_node? (h : t.node? directory = .ok node) : directory ≠ "" := by
  rintro rfl
  cases h

theorem areOrdered_of_node? (h : t.node? directory = .ok (.directory entries)) :
    Node.areOrdered none entries = true := by
  obtain ⟨here, hresolve, hnode⟩ := exists_resolve_of_node? h
  have := isOrdered_of_resolve hresolve
  rwa [hnode, Node.isOrdered] at this

theorem isName_of_mem (h : t.node? directory = .ok (.directory entries))
    (hmem : (name, node) ∈ entries) : isName name = true :=
  ((Node.areOrdered_iff.1 (areOrdered_of_node? h)).1 _ hmem).1

/-- The path of an entry leads to the entry. -/
theorem node?_join (h : t.node? directory = .ok (.directory entries))
    (hmem : (name, node) ∈ entries) (hlink : ∀ target, node ≠ .link target)
    (hfits : fits (join directory name) = true) : t.node? (join directory name) = .ok node := by
  obtain ⟨here, hresolve, hnode⟩ := exists_resolve_of_node? h
  have hfind : (t.nodeAt here).entries.find? (·.1 == name) = some (name, node) := by
    rw [hnode]
    exact Node.find?_of_mem (areOrdered_of_node? h) hmem
  rw [node?, resolve_join hresolve (isName_of_mem h hmem) hfind hlink hfits]
  rfl

theorem fits_of_isFile (h : t.isFile directory = true) : fits directory = true := by
  unfold isFile node? at h
  cases hresolve : t.resolve directory with
  | ok here => exact fits_of_resolve hresolve
  | error e =>
    rw [hresolve] at h
    cases h

/-- The path of an entry that is a file leads to a file, if it is short enough. -/
theorem isFile_join {content : Content} (h : t.node? directory = .ok (.directory entries))
    (hmem : (name, .file content) ∈ entries) :
    t.isFile (join directory name) = fits (join directory name) := by
  cases hfits : fits (join directory name) with
  | true =>
    rw [isFile, node?_join h hmem (fun _ => Node.noConfusion) hfits]
    rfl
  | false =>
    refine Bool.eq_false_iff.2 fun hfile => ?_
    rw [fits_of_isFile hfile] at hfits
    cases hfits

/-! ## Listing directories -/

/-- The path leads to a place that the operating system refuses to list. -/
def Refuses (t : FileTree) (path : String) : Prop :=
  ∃ here message, t.resolve path = .ok here ∧ t.refusal? here = some message

/-- What is listed could be looked up. -/
theorem fits_of_list (h : t.list directory = .ok entries) : fits directory = true := by
  rw [list] at h
  cases hresolve : t.resolve directory with
  | ok here => exact fits_of_resolve hresolve
  | error e =>
    rw [hresolve] at h
    cases h

/-- Where nothing is refused, a directory is listed as it lies there. -/
theorem list_of_refusals_nil (h : t.node? directory = .ok (.directory entries))
    (hrefusals : t.refusals = []) : t.list directory = .ok entries := by
  obtain ⟨here, hresolve, hnode⟩ := exists_resolve_of_node? h
  have hrefusal : t.refusal? here = none := by
    rw [refusal?, hrefusals]
    rfl
  simp only [list, hresolve, hrefusal, hnode]

/-- A directory is listed as it lies there, or it is refused. -/
theorem list_eq_or (h : t.node? directory = .ok (.directory entries)) :
    t.list directory = .ok entries ∧ ¬t.Refuses directory ∨
      (∃ message, t.list directory = .error message) ∧ t.Refuses directory := by
  obtain ⟨here, hresolve, hnode⟩ := exists_resolve_of_node? h
  cases hrefusal : t.refusal? here with
  | none =>
    refine Or.inl ⟨by simp only [list, hresolve, hrefusal, hnode], ?_⟩
    rintro ⟨here', message, hresolve', hrefusal'⟩
    cases hresolve.symm.trans hresolve'
    cases hrefusal.symm.trans hrefusal'
  | some message =>
    exact Or.inr ⟨⟨message, by simp only [list, hresolve, hrefusal]⟩,
      here, message, hresolve, hrefusal⟩

/-- A directory in another one cannot be listed if its path is too long, or if it is refused. -/
theorem exists_list_join_error_iff {inner : List (String × Node)}
    (h : t.node? directory = .ok (.directory entries)) (hmem : (name, .directory inner) ∈ entries) :
    (∃ message, t.list (join directory name) = .error message) ↔
      fits (join directory name) = false ∨ t.Refuses (join directory name) := by
  cases hfits : fits (join directory name) with
  | false =>
    refine iff_of_true ?_ (Or.inl rfl)
    cases hresolve : t.resolve (join directory name) with
    | error e => exact ⟨e.message, by simp only [list, hresolve]⟩
    | ok here =>
      rw [fits_of_resolve hresolve] at hfits
      cases hfits
  | true =>
    rw [or_iff_right Bool.noConfusion]
    rcases list_eq_or (node?_join h hmem (fun _ => Node.noConfusion) hfits) with
      ⟨hlist, hnot⟩ | ⟨herror, hrefuses⟩
    · refine iff_of_false ?_ hnot
      rintro ⟨message, hmessage⟩
      cases hlist.symm.trans hmessage
    · exact iff_of_true herror hrefuses

end FileTree

end ScalaLex
