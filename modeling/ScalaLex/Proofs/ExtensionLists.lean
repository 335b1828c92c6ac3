import Mathlib.Data.List.DropRight
import ScalaLex.Preferences.Environment

/-!
# Lists of extensions

A list of extensions is cut at its commas. From each piece blanks are taken off both ends and then
dots off the front, once and in this order (`Environment.gives_iff`). So an extension is not empty,
starts with no dot and ends with no blank. But it starts with a blank if one stands behind the dots
of its piece (`Environment.startsBlank_extensionOf_iff`), and then it is not the extension of a
piece that is made of it : the extensions of a list, with commas between them, are read back just if
none of them starts with a blank (`Environment.blanks_readExtensions`).
-/

namespace ScalaLex.Environment

open Text (isBlank trimChars)

variable {raw e : String} {cs piece back extension : List Char} {es : List String}

/-- The extension of a piece between commas, or nothing. -/
def extensionOf (piece : List Char) : List Char := (trimChars piece).dropWhile (· == '.')

/-- The first character is a blank. -/
def StartsBlank (cs : List Char) : Prop := ∃ c ∈ cs.head?, isBlank c = true

/-- The last character is no blank. -/
def EndsVisible (cs : List Char) : Prop := ∃ c ∈ cs.getLast?, isBlank c = false

/-- An extension with blanks and dots in front of it and blanks behind it. Where there are no dots,
it starts with no blank. -/
def Gives (piece extension : List Char) : Prop :=
  ∃ front dots back, piece = front ++ (dots ++ (extension ++ back)) ∧
    (∀ c ∈ front, isBlank c = true) ∧ (∀ c ∈ dots, c = '.') ∧ (∀ c ∈ back, isBlank c = true) ∧
    (dots = [] → ¬StartsBlank extension) ∧ extension.head? ≠ some '.' ∧ EndsVisible extension

/-- A blank behind the dots at the start of a piece, with something visible behind it. -/
def HidesBlank (piece : List Char) : Prop :=
  ∃ front dots c rest, piece = front ++ (dots ++ c :: rest) ∧ (∀ c ∈ front, isBlank c = true) ∧
    dots ≠ [] ∧ (∀ c ∈ dots, c = '.') ∧ isBlank c = true ∧ ∃ d ∈ rest, isBlank d = false

/-! ## Ends of a list of characters -/

theorem dropWhile_of_head? {p : Char → Bool} (h : ∀ c ∈ cs.head?, p c = false) :
    cs.dropWhile p = cs := by
  cases cs with
  | nil => rfl
  | cons c cs => rw [List.dropWhile_cons_of_neg (by simp [h c rfl])]

/-- The first character that is left has no part in what was dropped. -/
theorem head?_dropWhile {p : Char → Bool} {c : Char} (h : c ∈ (cs.dropWhile p).head?) :
    p c = false := by
  have hnot := List.head?_dropWhile_not p cs
  rwa [Option.mem_def.1 h] at hnot

theorem EndsVisible.ne_nil (h : EndsVisible cs) : cs ≠ [] := by
  rintro rfl
  obtain ⟨c, hc, -⟩ := h
  cases hc

theorem endsVisible_rdropWhile (h : cs.rdropWhile isBlank ≠ []) :
    EndsVisible (cs.rdropWhile isBlank) :=
  ⟨_, List.getLast?_eq_getLast_of_ne_nil h, Bool.eq_false_iff.2 (List.rdropWhile_last_not _ _ h)⟩

theorem EndsVisible.of_suffix (h : EndsVisible cs) (hsuffix : extension <:+ cs)
    (hne : extension ≠ []) : EndsVisible extension := by
  obtain ⟨front, rfl⟩ := hsuffix
  rwa [EndsVisible, List.getLast?_append_of_ne_nil _ hne] at h

/-- Blanks behind something visible are taken off. -/
theorem rdropWhile_append (h : EndsVisible cs) (hback : ∀ c ∈ back, isBlank c = true) :
    (cs ++ back).rdropWhile isBlank = cs := by
  obtain ⟨c, hc, hvisible⟩ := h
  have hback' : ∀ c ∈ back.reverse, isBlank c = true := fun c hc => hback c (List.mem_reverse.1 hc)
  have hself : cs.reverse.dropWhile isBlank = cs.reverse := by
    refine dropWhile_of_head? fun d hd => ?_
    rw [List.head?_reverse, Option.mem_def.1 hc] at hd
    cases hd
    exact hvisible
  rw [List.rdropWhile, List.reverse_append, List.dropWhile_append_of_pos hback', hself,
    List.reverse_reverse]

/-! ## Pieces -/

theorem extensionOf_eq_rdropWhile (piece : List Char) : extensionOf piece =
    ((piece.dropWhile isBlank).rdropWhile isBlank).dropWhile (· == '.') := rfl

/-- What a piece gives is taken out of it. -/
theorem extensionOf_of_gives (h : Gives piece extension) : extensionOf piece = extension := by
  obtain ⟨front, dots, back, rfl, hfront, hdots, hback, hstart, hdot, hend⟩ := h
  have hhead : ∀ c ∈ (dots ++ (extension ++ back)).head?, isBlank c = false := by
    intro c hc
    cases dots with
    | nil =>
      rw [List.nil_append, List.head?_append_of_ne_nil _ hend.ne_nil] at hc
      exact Bool.eq_false_iff.2 fun hblank => hstart rfl ⟨c, hc, hblank⟩
    | cons d dots =>
      obtain rfl : d = c := Option.some.inj hc
      rw [hdots d List.mem_cons_self]
      decide
  have hvisible : EndsVisible (dots ++ extension) := by
    rwa [EndsVisible, List.getLast?_append_of_ne_nil _ hend.ne_nil]
  have hdots' : ∀ c ∈ dots, (c == '.') = true := fun c hc => beq_iff_eq.2 (hdots c hc)
  rw [extensionOf_eq_rdropWhile, List.dropWhile_append_of_pos hfront, dropWhile_of_head? hhead,
    ← List.append_assoc, rdropWhile_append hvisible hback, List.dropWhile_append_of_pos hdots']
  refine dropWhile_of_head? fun c hc => beq_eq_false_iff_ne.2 ?_
  rintro rfl
  exact hdot hc

theorem gives_extensionOf (h : extensionOf piece ≠ []) : Gives piece (extensionOf piece) := by
  rw [extensionOf_eq_rdropWhile] at h ⊢
  have hpiece : piece.takeWhile isBlank ++ piece.dropWhile isBlank = piece :=
    List.takeWhile_append_dropWhile
  have hhead : ∀ c ∈ (piece.dropWhile isBlank).head?, isBlank c = false := fun _ => head?_dropWhile
  generalize piece.dropWhile isBlank = inner at h hpiece hhead ⊢
  have hinner : inner.rdropWhile isBlank ++ inner.rtakeWhile isBlank = inner :=
    List.rdropWhile_append_rtakeWhile
  have hne : inner.rdropWhile isBlank ≠ [] := by
    intro hnil
    rw [hnil] at h
    exact h rfl
  have hend := endsVisible_rdropWhile hne
  generalize inner.rdropWhile isBlank = trimmed at h hinner hne hend ⊢
  have htrimmed : trimmed.takeWhile (· == '.') ++ trimmed.dropWhile (· == '.') = trimmed :=
    List.takeWhile_append_dropWhile
  refine ⟨piece.takeWhile isBlank, trimmed.takeWhile (· == '.'), inner.rtakeWhile isBlank, ?_,
    fun c hc => List.mem_takeWhile_imp hc, fun c hc => ?_, fun c hc => List.mem_rtakeWhile_imp hc,
    ?_, ?_, hend.of_suffix (List.dropWhile_suffix _) h⟩
  · rw [← List.append_assoc (trimmed.takeWhile _), htrimmed, hinner, hpiece]
  · have hdot := List.mem_takeWhile_imp hc
    exact beq_iff_eq.1 hdot
  · rintro hdots ⟨c, hc, hblank⟩
    rw [hdots, List.nil_append] at htrimmed
    rw [htrimmed] at hc
    rw [← hinner, List.head?_append_of_ne_nil _ hne] at hhead
    rw [hhead c hc] at hblank
    cases hblank
  · intro hdot
    have hne := head?_dropWhile (p := (· == '.')) hdot
    cases hne

theorem gives_iff : Gives piece extension ↔ extensionOf piece = extension ∧ extension ≠ [] := by
  constructor
  · intro h
    obtain ⟨-, -, -, -, -, -, -, -, -, hend⟩ := id h
    exact ⟨extensionOf_of_gives h, hend.ne_nil⟩
  · rintro ⟨rfl, hne⟩
    exact gives_extensionOf hne

theorem startsBlank_extensionOf_iff : StartsBlank (extensionOf piece) ↔ HidesBlank piece := by
  constructor
  · rintro ⟨c, hc, hblank⟩
    obtain ⟨rest, hrest⟩ := List.head?_eq_some_iff.1 hc
    obtain ⟨front, dots, back, hpiece, hfront, hdots, -, hstart, -, hend⟩ :=
      gives_extensionOf (hrest ▸ List.cons_ne_nil c rest)
    rw [hrest] at hpiece hstart hend
    refine ⟨front, dots, c, rest ++ back, hpiece, hfront, fun h => hstart h ⟨c, rfl, hblank⟩, hdots,
      hblank, ?_⟩
    obtain ⟨d, hd, hvisible⟩ := hend
    rcases List.mem_cons.1 (List.mem_of_getLast? hd) with rfl | hmem
    · rw [hblank] at hvisible
      cases hvisible
    · exact ⟨d, List.mem_append_left _ hmem, hvisible⟩
  · rintro ⟨front, dots, c, rest, hpiece, hfront, hne, hdots, hblank, d, hd, hvisible⟩
    have hrest : rest.rdropWhile isBlank ≠ [] := by
      rw [Ne, List.rdropWhile_eq_nil_iff]
      intro hall
      rw [hall d hd] at hvisible
      cases hvisible
    have hgives : Gives piece (c :: rest.rdropWhile isBlank) := by
      refine ⟨front, dots, rest.rtakeWhile isBlank, ?_, hfront, hdots,
        fun c hc => List.mem_rtakeWhile_imp hc, fun h => absurd h hne, ?_, ?_⟩
      · rw [List.cons_append, List.rdropWhile_append_rtakeWhile, hpiece]
      · rintro ⟨⟩
        cases hblank
      · rw [EndsVisible, ← List.singleton_append, List.getLast?_append_of_ne_nil _ hrest]
        exact endsVisible_rdropWhile hrest
    rw [extensionOf_of_gives hgives]
    exact ⟨c, rfl, hblank⟩

/-! ## Commas -/

theorem splitCommas_eq (cs : List Char) : splitCommas cs = cs.splitOn ',' := by
  induction cs with
  | nil => rfl
  | cons c cs ih =>
    obtain ⟨piece, pieces, hpieces⟩ := List.exists_cons_of_ne_nil (List.splitOn_ne_nil ',' cs)
    rw [splitCommas, ih, List.splitOn_cons_eq_if_modifyHead, hpieces]
    simp

theorem comma_not_mem (h : piece ∈ cs.splitOn ',') : ',' ∉ piece := by
  rw [← splitCommas_eq] at h
  fun_induction splitCommas cs generalizing piece with
  | case1 => simp [List.mem_singleton.1 h]
  | case2 rest ih =>
    rcases List.mem_cons.1 h with rfl | hmem
    · exact List.not_mem_nil
    · exact ih hmem
  | case3 c rest hcomma hnil ih =>
    rw [List.mem_singleton.1 h]
    simpa using Ne.symm hcomma
  | case4 c rest hcomma first pieces hpieces ih =>
    rw [hpieces] at ih
    rcases List.mem_cons.1 h with rfl | hmem
    · have hfirst := ih List.mem_cons_self
      simp [hfirst, Ne.symm hcomma]
    · exact ih (List.mem_cons_of_mem _ hmem)

theorem filterMap_isEmpty (ps : List (List Char)) :
    (ps.filterMap fun p => if p.isEmpty then none else some (String.ofList p)) =
      (ps.filter (!·.isEmpty)).map String.ofList := by
  induction ps with
  | nil => rfl
  | cons p ps ih => rw [List.filterMap_cons, ih, List.filter_cons]; cases p <;> rfl

theorem readExtensions_eq (raw : String) : readExtensions raw =
    (((raw.toList.splitOn ',').map extensionOf).filter (!·.isEmpty)).map String.ofList := by
  rw [← filterMap_isEmpty, ← splitCommas_eq]
  rfl

theorem mem_readExtensions_iff :
    e ∈ readExtensions raw ↔ ∃ piece ∈ raw.toList.splitOn ',', Gives piece e.toList := by
  simp only [readExtensions_eq, List.mem_map, List.mem_filter, gives_iff, Bool.not_eq_true',
    List.isEmpty_eq_false_iff]
  constructor
  · rintro ⟨_, ⟨⟨piece, hpiece, rfl⟩, hne⟩, rfl⟩
    rw [String.toList_ofList]
    exact ⟨piece, hpiece, rfl, hne⟩
  · rintro ⟨piece, hpiece, heq, hne⟩
    exact ⟨e.toList, ⟨⟨piece, hpiece, heq⟩, hne⟩, String.ofList_toList⟩

/-! ## Lists made of extensions -/

theorem comma_not_mem_of_mem_readExtensions (h : e ∈ readExtensions raw) : ',' ∉ e.toList := by
  obtain ⟨piece, hpiece, front, dots, back, rfl, -⟩ := mem_readExtensions_iff.1 h
  have hcomma := comma_not_mem hpiece
  simp only [List.mem_append, not_or] at hcomma
  exact hcomma.2.2.1

/-- Extensions with commas between them are read one by one. -/
theorem readExtensions_join (h : ∀ e ∈ es, ',' ∉ e.toList) :
    readExtensions (String.intercalate "," es) =
      ((es.map fun e => extensionOf e.toList).filter (!·.isEmpty)).map String.ofList := by
  have hcommas : ∀ cs ∈ es.map String.toList, ',' ∉ cs := by simpa using h
  rw [readExtensions_eq, String.toList_intercalate]
  cases es with
  | nil => rfl
  | cons e es =>
    have hcomma : ",".toList = [','] := rfl
    rw [hcomma, List.splitOn_intercalate ',' hcommas (List.cons_ne_nil _ _), List.map_map]
    rfl

/-- An extension is what it gives itself just if it starts with no blank. -/
theorem extensionOf_eq_self_iff (h : e ∈ readExtensions raw) :
    extensionOf e.toList = e.toList ↔ ¬StartsBlank e.toList := by
  obtain ⟨piece, -, front, dots, back, -, -, -, -, -, hdot, hend⟩ := mem_readExtensions_iff.1 h
  constructor
  · intro heq
    obtain ⟨front, dots, back, hself, -, -, -, hstart, -⟩ := gives_iff.2 ⟨heq, hend.ne_nil⟩
    have hlength := congrArg List.length hself
    simp only [List.length_append] at hlength
    exact hstart (List.eq_nil_of_length_eq_zero (by omega))
  · intro hstart
    exact extensionOf_of_gives ⟨[], [], [], by simp, by simp, by simp, by simp, fun _ => hstart,
      hdot, hend⟩

/-- Nothing is dropped and nothing changed where a list is read as it was. -/
theorem readExtensions_join_eq_iff (hcommas : ∀ e ∈ es, ',' ∉ e.toList)
    (hne : ∀ e ∈ es, e.toList ≠ []) :
    readExtensions (String.intercalate "," es) = es ↔
      ∀ e ∈ es, extensionOf e.toList = e.toList := by
  rw [readExtensions_join hcommas]
  constructor
  · intro h
    have hlength := congrArg List.length h
    rw [List.length_map, ← List.length_map (f := fun e : String => extensionOf e.toList),
      List.length_filter_eq_length_iff] at hlength
    rw [List.filter_eq_self.2 hlength, List.map_map] at h
    intro e he
    have heq := List.map_inj_left.1 (h.trans (List.map_id es).symm) e he
    have hchars := congrArg String.toList heq
    rwa [Function.comp_apply, String.toList_ofList] at hchars
  · intro h
    have hmap : (es.map fun e => extensionOf e.toList) = es.map String.toList :=
      List.map_congr_left h
    have hkept : ∀ cs ∈ es.map String.toList, (!cs.isEmpty) = true := by simpa using hne
    rw [hmap, List.filter_eq_self.2 hkept, List.map_map]
    simp [Function.comp_def]

/-- The extensions of a list are those that its pieces give. None is empty, starts with a dot or
ends with a blank. With commas between them they are read back just if none starts with a blank,
and one does just if a piece has a blank behind its dots. -/
theorem blanks_readExtensions (raw : String) :
    (∀ e, e ∈ readExtensions raw ↔ ∃ piece ∈ raw.toList.splitOn ',', Gives piece e.toList) ∧
    (∀ e ∈ readExtensions raw, e ≠ "" ∧ e.toList.head? ≠ some '.' ∧ EndsVisible e.toList) ∧
    (readExtensions (String.intercalate "," (readExtensions raw)) = readExtensions raw ↔
      ∀ e ∈ readExtensions raw, ¬StartsBlank e.toList) ∧
    ((∃ e ∈ readExtensions raw, StartsBlank e.toList) ↔
      ∃ piece ∈ raw.toList.splitOn ',', HidesBlank piece) := by
  have hshape : ∀ e ∈ readExtensions raw,
      e ≠ "" ∧ e.toList.head? ≠ some '.' ∧ EndsVisible e.toList := by
    intro e he
    obtain ⟨_, -, _, _, _, -, -, -, -, -, hdot, hend⟩ := mem_readExtensions_iff.1 he
    exact ⟨fun hempty => hend.ne_nil (String.toList_eq_nil_iff.2 hempty), hdot, hend⟩
  refine ⟨fun e => mem_readExtensions_iff, hshape, ?_, ?_⟩
  · rw [readExtensions_join_eq_iff (fun e => comma_not_mem_of_mem_readExtensions)
      fun e he => (hshape e he).2.2.ne_nil]
    exact forall₂_congr fun e he => extensionOf_eq_self_iff he
  · constructor
    · rintro ⟨e, he, hblank⟩
      obtain ⟨piece, hpiece, hgives⟩ := mem_readExtensions_iff.1 he
      rw [← extensionOf_of_gives hgives, startsBlank_extensionOf_iff] at hblank
      exact ⟨piece, hpiece, hblank⟩
    · rintro ⟨piece, hpiece, hhides⟩
      have hblank := startsBlank_extensionOf_iff.2 hhides
      have hne : extensionOf piece ≠ [] := by
        intro hnil
        rw [hnil] at hblank
        obtain ⟨c, hc, -⟩ := hblank
        cases hc
      refine ⟨String.ofList (extensionOf piece), mem_readExtensions_iff.2 ⟨piece, hpiece, ?_⟩, ?_⟩
      · rw [String.toList_ofList]
        exact gives_extensionOf hne
      · rwa [String.toList_ofList]

/-- A blank behind a dot is left at the start of an extension, and gone when that is read again. -/
theorem blank_behind_dot_is_left :
    readExtensions ". scala" = [" scala"] ∧ readExtensions " scala" = ["scala"] ∧
      ¬∀ raw, (∀ e ∈ readExtensions raw, ¬StartsBlank e.toList) ∧
        readExtensions (String.intercalate "," (readExtensions raw)) = readExtensions raw := by
  have hread : readExtensions ". scala" = [" scala"] := by decide +kernel
  refine ⟨hread, by decide +kernel, fun h => ?_⟩
  have hstart := (h ". scala").1
  rw [hread] at hstart
  exact hstart " scala" List.mem_cons_self ⟨' ', rfl, by decide⟩

end ScalaLex.Environment
