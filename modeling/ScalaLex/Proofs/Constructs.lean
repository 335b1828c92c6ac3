import ScalaLex.Proofs.OpenConstructs

/-!
# The constructs that a source opens

A comment or quoted literal is opened by an opener that stands where a piece of the source starts,
and by no other : an opener inside of a construct is part of its body. `constructs` lists the
constructs of a source in this sense, and a scan counts them as they come (`opened_scan`).

A source that opens none is cut in the same way whatever comes behind it, if that starts with a
space (`pieces_append_space`).
-/

namespace ScalaLex

variable {b : UInt8} {rest s u v source : List UInt8} {d : Delimiter}

/-- The constructs that a normalized source opens outside of other ones, in order. -/
def constructs : List UInt8 → List Delimiter
  | [] => []
  | b :: rest => (Delimiter.opening? (b :: rest)).toList ++ constructs (Piece.front b rest).2
termination_by s => s.length
decreasing_by exact Nat.lt_succ_of_le (Piece.length_front_le b rest)

/-- How often a construct was opened. -/
def Opened.get (o : Opened) : Delimiter → Nat
  | .blockComment => o.blockComments
  | .lineComment => o.lineComments
  | .string => o.strings
  | .char => o.chars

/-- The construct that a piece is. -/
def Piece.construct? (p : Piece) : Option Delimiter := Delimiter.all.find? (·.mode == p.mode)

/-! ## The pieces that are constructs -/

/-- A piece is the construct that its source starts with. -/
theorem Piece.construct?_front (b : UInt8) (rest : List UInt8) :
    (front b rest).1.construct? = Delimiter.opening? (b :: rest) := by
  unfold front construct?
  cases hopen : Delimiter.opening? (b :: rest) with
  | some d =>
    have hmode : (d.front ((b :: rest).drop d.opener.length)).1.mode = d.mode := by
      unfold Delimiter.front
      split
      · rfl
      · split <;> rfl
    dsimp only
    rw [hmode]
    cases d <;> rfl
  | none =>
    dsimp only
    repeat' split
    all_goals rfl

theorem constructs_eq_filterMap (s : List UInt8) :
    constructs s = (pieces s).filterMap Piece.construct? := by
  fun_induction pieces s with
  | case1 => rw [constructs]; rfl
  | case2 b rest ih =>
    rw [constructs, ih, ← Piece.construct?_front, List.filterMap_cons]
    cases (Piece.front b rest).1.construct? <;> rfl

/-! ## The counters of a scan -/

theorem Opened.get_record (o : Opened) (p : Piece) (d : Delimiter) :
    (o.record p.mode).get d = o.get d + p.construct?.toList.count d := by
  unfold Piece.construct?
  cases p.mode <;> cases d <;> rfl

/-- Adding up pieces counts the constructs among them. -/
theorem foldl_add_opened (ps : List Piece) (o : Progress) (d : Delimiter) :
    (ps.foldl Progress.add o).opened.get d =
      o.opened.get d + (ps.filterMap Piece.construct?).count d := by
  induction ps generalizing o with
  | nil => rfl
  | cons p ps ih =>
    have hcons : (p :: ps).filterMap Piece.construct? =
        p.construct?.toList ++ ps.filterMap Piece.construct? := by
      rw [List.filterMap_cons]
      cases p.construct? <;> rfl
    rw [List.foldl_cons, ih, hcons, List.count_append, ← Nat.add_assoc, ← Opened.get_record]
    rfl

/-- A scan counts the constructs of its source. -/
theorem opened_scan (source : List UInt8) (d : Delimiter) :
    (Machine.scan source).opened.get d = (constructs (normalize source)).count d := by
  have hopened : (Machine.scan source).opened = _ :=
    congrArg Progress.opened (progress_scan source)
  rw [hopened, foldl_add_opened, ← constructs_eq_filterMap]
  cases d <;> exact Nat.zero_add _

/-! ## Sources that open nothing -/

/-- A byte that opens nothing at the end of a source opens nothing in front of a space. -/
theorem Delimiter.opening?_append_space (h : opening? (b :: rest) = none) (v : List UInt8) :
    opening? (b :: (rest ++ 0x20 :: v)) = none := by
  cases rest with
  | nil =>
    have hnone := List.find?_eq_none.1 h
    refine List.find?_eq_none.2 fun d hd hprefix => hnone d hd ?_
    cases d <;> simp_all [opener, List.isPrefixOf]
  | cons c rest => rwa [opening?_append (List.cons_ne_nil c rest)]

/-- A piece that is no construct ends in front of a space at the latest. -/
theorem Piece.front_append_space (h : Delimiter.opening? (b :: rest) = none) (v : List UInt8) :
    front b (rest ++ 0x20 :: v) = ((front b rest).1, (front b rest).2 ++ 0x20 :: v) := by
  have hspace : Byte.isBoundary 0x20 = true := by decide
  obtain ⟨htake, hdrop⟩ := takeWhile_isWord_of_boundary hspace rest v
  have hrun : numberRun b rest <+: rest := ⟨_, numberRun_append_drop b rest⟩
  unfold front
  rw [h, Delimiter.opening?_append_space h, htake, hdrop, numberRun_of_boundary hspace,
    List.drop_append_of_le_length hrun.length_le]
  dsimp only
  split_ifs <;> rfl

/-- A source with no opener in it opens no construct. -/
theorem constructs_eq_nil (h : ∀ d : Delimiter, ¬d.opener <:+: s) : constructs s = [] := by
  fun_induction pieces s with
  | case1 => rw [constructs]
  | case2 b rest ih =>
    have hopen : Delimiter.opening? (b :: rest) = none := by
      rw [Option.eq_none_iff_forall_ne_some]
      intro d hd
      exact h d ⟨[], _, Delimiter.append_drop_of_opening? hd⟩
    have hbehind : (Piece.front b rest).2 <:+ b :: rest := ⟨_, Piece.bytes_front b rest⟩
    rw [constructs, hopen, ih fun d hd => h d (hd.trans hbehind.isInfix)]
    rfl

/-- A source that opens no construct is cut as it is cut in front of a space. -/
theorem pieces_append_space (h : constructs s = []) (v : List UInt8) :
    pieces (s ++ 0x20 :: v) = pieces s ++ pieces (0x20 :: v) := by
  fun_induction pieces s with
  | case1 => rfl
  | case2 b rest ih =>
    rw [constructs, List.append_eq_nil_iff] at h
    have hopen : Delimiter.opening? (b :: rest) = none := by simpa using h.1
    rw [List.cons_append, pieces, Piece.front_append_space hopen, List.cons_append, ← ih h.2]

end ScalaLex
