import ScalaLex.Source.Lines

/-!
# Line ends and line numbers

A line ends with a line feed, with a carriage return and a line feed, or with a carriage
return alone (`endsLineAt`). The line of a byte, counted from one, is found by counting the
lines that end before its offset (`lineAt`), and `countLines` counts them over the whole
source (`countLines_eq_lineAt`).

`normalize` writes every line end as a single line feed. `sourceOffset` takes an offset in
the normalized source back to the source : the byte there is the same unless it ends a
line (`getElem?_sourceOffset`), offsets keep their order (`sourceOffset_lt`), and
the line feeds before an offset are the line ends before it in the source
(`lineAt_sourceOffset`). Where the normalized source is cut, the source can be cut too
(`normalize_eq_append`).
-/

namespace ScalaLex

/-- A carriage return that a line feed follows. -/
def opensPair (b : UInt8) (rest : List UInt8) : Bool :=
  b == Byte.cr && rest.head? == some Byte.lf

/-- The source with every line end written as a line feed. -/
def normalize : List UInt8 → List UInt8
  | [] => []
  | b :: rest =>
    if opensPair b rest then normalize rest
    else (if b == Byte.cr then Byte.lf else b) :: normalize rest

/-- The byte at the offset `i` is the last one of a line end. -/
def endsLineAt (source : List UInt8) (i : Nat) : Bool :=
  source[i]? == some Byte.lf || (source[i]? == some Byte.cr && source[i + 1]? != some Byte.lf)

/-- How many lines end before an offset. -/
def lineEndsBefore (source : List UInt8) (offset : Nat) : Nat :=
  (List.range offset).countP (endsLineAt source)

/-- The line, counted from one, of the byte at an offset. -/
def lineAt (source : List UInt8) (offset : Nat) : Nat := 1 + lineEndsBefore source offset

/-- The offset in the source of the byte at an offset in the normalized source. -/
def sourceOffset : List UInt8 → Nat → Nat
  | [], _ => 0
  | b :: rest, n =>
    if opensPair b rest then sourceOffset rest n + 1
    else match n with
      | 0 => 0
      | n + 1 => sourceOffset rest n + 1

variable {source : List UInt8} {m n : Nat}

/-! ## Counting line ends -/

theorem lineEndsBefore_zero (source : List UInt8) : lineEndsBefore source 0 = 0 := rfl

theorem lineEndsBefore_succ (source : List UInt8) (n : Nat) :
    lineEndsBefore source (n + 1) = lineEndsBefore source n + (endsLineAt source n).toNat := by
  rw [lineEndsBefore, List.range_succ, List.countP_append, List.countP_singleton]
  cases endsLineAt source n <;> rfl

theorem lineEndsBefore_mono (source : List UInt8) (h : m ≤ n) :
    lineEndsBefore source m ≤ lineEndsBefore source n := by
  induction h with
  | refl => exact Nat.le_refl _
  | step _ ih =>
    rw [lineEndsBefore_succ]
    exact Nat.le_add_right_of_le ih

theorem lineEndsBefore_le (source : List UInt8) (n : Nat) : lineEndsBefore source n ≤ n := by
  have h : (List.range n).countP (endsLineAt source) ≤ (List.range n).length :=
    List.countP_le_length
  rwa [List.length_range] at h

theorem lineAt_mono (source : List UInt8) (h : m ≤ n) : lineAt source m ≤ lineAt source n :=
  Nat.add_le_add_left (lineEndsBefore_mono source h) 1

theorem endsLineAt_cons_succ (b : UInt8) (rest : List UInt8) (i : Nat) :
    endsLineAt (b :: rest) (i + 1) = endsLineAt rest i := rfl

theorem endsLineAt_cons_zero (b : UInt8) (rest : List UInt8) : endsLineAt (b :: rest) 0 =
    (b == Byte.lf || (b == Byte.cr && rest.head? != some Byte.lf)) := by
  cases rest <;> rfl

/-- The first byte is counted on its own. -/
theorem lineEndsBefore_cons (b : UInt8) (rest : List UInt8) (n : Nat) :
    lineEndsBefore (b :: rest) (n + 1) =
      (endsLineAt (b :: rest) 0).toNat + lineEndsBefore rest n := by
  induction n with
  | zero => simp [lineEndsBefore_succ, lineEndsBefore_zero]
  | succ n ih =>
    rw [lineEndsBefore_succ, ih, lineEndsBefore_succ rest, endsLineAt_cons_succ, Nat.add_assoc]

/-! ## The lines of a source -/

theorem lineEndsOnto_eq (n : Nat) (source : List UInt8) :
    lineEndsOnto n source = n + lineEndsBefore source source.length := by
  induction source generalizing n with
  | nil => rfl
  | cons b rest ih =>
    rw [lineEndsOnto, List.length_cons, lineEndsBefore_cons, endsLineAt_cons_zero]
    by_cases hlf : b = Byte.lf
    · have hcr : b ≠ Byte.cr := by rw [hlf]; decide
      simp [hlf, ih, Nat.add_assoc, show (Byte.lf == Byte.cr) = false from rfl]
    · by_cases hcr : b = Byte.cr
      · by_cases hnext : rest.head? = some Byte.lf
        · simp [hcr, hnext, ih, show (Byte.cr == Byte.lf) = false from rfl]
        · have hnext' : (rest.head? == some Byte.lf) = false := beq_eq_false_iff_ne.2 hnext
          simp [hcr, hnext', ih, Nat.add_assoc, bne]
      · simp [hcr, hlf, ih]

/-- The last byte of a source ends a line if it is one that can. -/
theorem endsLineAt_last {b : UInt8} (h : source.getLast? = some b) :
    endsLineAt source (source.length - 1) = isLineEnd b := by
  have hlast : source[source.length - 1]? = some b := by rwa [← List.getLast?_eq_getElem?]
  have hpos : 0 < source.length := List.length_pos_iff.2 fun hnil => by simp [hnil] at h
  have hend : source[source.length - 1 + 1]? = none := by simp; omega
  rw [endsLineAt, hlast, hend, isLineEnd, Bool.or_comm]
  simp [bne]

/-- The lines of a source that is not empty are numbered up to the line of its last byte. -/
theorem countLines_eq_lineAt (h : source ≠ []) :
    countLines source = lineAt source (source.length - 1) := by
  have hlen : source.length = source.length - 1 + 1 := by
    have := List.length_pos_iff.2 h
    omega
  have hlast := List.getLast?_eq_some_getLast h
  have hcount : lineEndsBefore source source.length = lineEndsBefore source (source.length - 1) +
      (isLineEnd (source.getLast h)).toNat := by
    rw [← endsLineAt_last hlast, ← lineEndsBefore_succ, ← hlen]
  rw [countLines, hlast, lineEndsOnto_eq, hcount, lineAt]
  cases hb : isLineEnd (source.getLast h) <;> simp [hb] <;> omega

/-! ## Offsets in the normalized source -/

variable {b : UInt8} {rest : List UInt8}

theorem opensPair_iff : opensPair b rest = true ↔ b = Byte.cr ∧ rest.head? = some Byte.lf := by
  simp [opensPair]

theorem normalize_pair (h : opensPair b rest = true) :
    normalize (b :: rest) = normalize rest := by
  rw [normalize, if_pos h]

theorem normalize_cons (h : opensPair b rest = false) :
    normalize (b :: rest) = (if b == Byte.cr then Byte.lf else b) :: normalize rest := by
  rw [normalize, h]
  rfl

theorem sourceOffset_pair (h : opensPair b rest = true) (n : Nat) :
    sourceOffset (b :: rest) n = sourceOffset rest n + 1 := by
  cases n <;> rw [sourceOffset, if_pos h]

theorem sourceOffset_cons_zero (h : opensPair b rest = false) :
    sourceOffset (b :: rest) 0 = 0 := by
  rw [sourceOffset, h]
  rfl

theorem sourceOffset_cons_succ (h : opensPair b rest = false) (n : Nat) :
    sourceOffset (b :: rest) (n + 1) = sourceOffset rest n + 1 := by
  rw [sourceOffset, h]
  rfl

theorem ne_cr_of_mem_normalize (h : b ∈ normalize source) : b ≠ Byte.cr := by
  fun_induction normalize source with
  | case1 => simp at h
  | case2 _ _ _ ih => exact ih h
  | case3 c _ _ ih =>
    rcases List.mem_cons.1 h with rfl | h
    · split
      · decide
      · rename_i hcr
        simpa using hcr
    · exact ih h

theorem mem_normalize_of_mem (h : b ∈ source) : b = Byte.cr ∨ b ∈ normalize source := by
  fun_induction normalize source with
  | case1 => cases h
  | case2 c rest hpair ih =>
    rcases List.mem_cons.1 h with rfl | h
    · exact Or.inl (opensPair_iff.1 hpair).1
    · exact ih h
  | case3 c rest _ ih =>
    rcases List.mem_cons.1 h with rfl | h
    · by_cases hcr : b = Byte.cr
      · exact Or.inl hcr
      · simp [hcr]
    · exact (ih h).imp_right (List.mem_cons_of_mem _)

theorem head?_normalize (h : b ∈ source.head?) :
    b = Byte.cr ∨ b ∈ (normalize source).head? := by
  obtain ⟨rest, rfl⟩ := List.head?_eq_some_iff.1 h
  by_cases hcr : b = Byte.cr
  · exact Or.inl hcr
  · rw [normalize_cons (by simp [opensPair, hcr])]
    simp [hcr]

/-- No two normalized bytes come from one byte of the source. -/
theorem sourceOffset_lt (hmn : m < n) (hn : n ≤ (normalize source).length) :
    sourceOffset source m < sourceOffset source n := by
  induction source generalizing m n with
  | nil =>
    rw [normalize, List.length_nil] at hn
    omega
  | cons b rest ih =>
    cases hpair : opensPair b rest with
    | true =>
      rw [normalize_pair hpair] at hn
      rw [sourceOffset_pair hpair, sourceOffset_pair hpair]
      exact Nat.succ_lt_succ (ih hmn hn)
    | false =>
      rw [normalize_cons hpair, List.length_cons] at hn
      obtain ⟨n, rfl⟩ := Nat.exists_eq_add_of_lt (Nat.zero_lt_of_lt hmn)
      rw [Nat.zero_add] at hmn hn ⊢
      rw [sourceOffset_cons_succ hpair]
      cases m with
      | zero =>
        rw [sourceOffset_cons_zero hpair]
        exact Nat.succ_pos _
      | succ m =>
        rw [sourceOffset_cons_succ hpair]
        exact Nat.succ_lt_succ (ih (by omega) (by omega))

theorem sourceOffset_length (source : List UInt8) :
    sourceOffset source (normalize source).length = source.length := by
  induction source with
  | nil => rfl
  | cons b rest ih =>
    cases hpair : opensPair b rest with
    | true => rw [normalize_pair hpair, sourceOffset_pair hpair, ih, List.length_cons]
    | false =>
      rw [normalize_cons hpair, List.length_cons, sourceOffset_cons_succ hpair, ih,
        List.length_cons]

theorem sourceOffset_lt_length (h : n < (normalize source).length) :
    sourceOffset source n < source.length := by
  have hlt := sourceOffset_lt h (Nat.le_refl _)
  rwa [sourceOffset_length] at hlt

/-- A byte that ends no line stands in the source as it stands in the normalized source. -/
theorem getElem?_sourceOffset (h : (normalize source)[n]? = some b) (hb : b ≠ Byte.lf) :
    source[sourceOffset source n]? = some b := by
  induction source generalizing n with
  | nil => simp [normalize] at h
  | cons c rest ih =>
    cases hpair : opensPair c rest with
    | true =>
      rw [normalize_pair hpair] at h
      rw [sourceOffset_pair hpair, List.getElem?_cons_succ]
      exact ih h
    | false =>
      rw [normalize_cons hpair] at h
      cases n with
      | zero =>
        rw [sourceOffset_cons_zero hpair]
        by_cases hcr : c = Byte.cr
        · simp [hcr, hb.symm] at h
        · simpa [hcr] using h
      | succ n =>
        rw [sourceOffset_cons_succ hpair, List.getElem?_cons_succ]
        exact ih h

/-- The line feeds of the normalized source are the line ends of the source. -/
theorem lineEndsBefore_sourceOffset (h : n ≤ (normalize source).length) :
    lineEndsBefore source (sourceOffset source n) =
      ((normalize source).take n).count Byte.lf := by
  induction source generalizing n with
  | nil => simp [normalize, sourceOffset, lineEndsBefore_zero]
  | cons b rest ih =>
    cases hpair : opensPair b rest with
    | true =>
      have hzero : endsLineAt (b :: rest) 0 = false := by
        obtain ⟨rfl, hnext⟩ := opensPair_iff.1 hpair
        rw [endsLineAt_cons_zero, hnext]
        rfl
      rw [normalize_pair hpair] at h ⊢
      rw [sourceOffset_pair hpair, lineEndsBefore_cons, hzero, ih h, Bool.toNat_false, Nat.zero_add]
    | false =>
      rw [normalize_cons hpair, List.length_cons] at h
      rw [normalize_cons hpair]
      cases n with
      | zero => simp [sourceOffset_cons_zero hpair, lineEndsBefore_zero]
      | succ n =>
        rw [sourceOffset_cons_succ hpair, lineEndsBefore_cons, ih (by omega), List.take_succ_cons,
          List.count_cons, Nat.add_comm, endsLineAt_cons_zero]
        by_cases hcr : b = Byte.cr
        · have hnext : (rest.head? == some Byte.lf) = false := by simpa [opensPair, hcr] using hpair
          simp [hcr, hnext, bne]
        · cases hlf : b == Byte.lf <;> simp [hcr, hlf]

theorem lineAt_sourceOffset (h : n ≤ (normalize source).length) :
    lineAt source (sourceOffset source n) = 1 + ((normalize source).take n).count Byte.lf := by
  rw [lineAt, lineEndsBefore_sourceOffset h]

/-- The normalized source has a line feed for every line end of the source. -/
theorem count_lf_normalize (source : List UInt8) :
    (normalize source).count Byte.lf = lineEndsBefore source source.length := by
  have h := lineEndsBefore_sourceOffset (Nat.le_refl (normalize source).length)
  rw [sourceOffset_length, List.take_length] at h
  exact h.symm

theorem normalize_eq_self (h : Byte.cr ∉ source) : normalize source = source := by
  induction source with
  | nil => rfl
  | cons b rest ih =>
    have hb : b ≠ Byte.cr := (List.ne_of_not_mem_cons h).symm
    rw [normalize_cons (by simp [opensPair, hb]), ih (List.not_mem_of_not_mem_cons h)]
    simp [hb]

/-- Only its last byte tells what the normalized source ends with. -/
theorem getLast?_normalize (source : List UInt8) : (normalize source).getLast? =
    source.getLast?.map fun b => if b == Byte.cr then Byte.lf else b := by
  induction source with
  | nil => rfl
  | cons b rest ih =>
    cases hpair : opensPair b rest with
    | true =>
      obtain ⟨-, hnext⟩ := opensPair_iff.1 hpair
      obtain ⟨rest, rfl⟩ := List.head?_eq_some_iff.1 hnext
      rw [normalize_pair hpair, ih, List.getLast?_cons_cons]
    | false =>
      rw [normalize_cons hpair, List.getLast?_cons, ih, List.getLast?_cons, Option.getD_map]
      rfl

/-! ## One source behind another -/

variable {u v w x y : List UInt8}

/-- Two sources make no line end together, unless it is a pair. -/
theorem normalize_append (h : u.getLast? = some Byte.cr → v.head? ≠ some Byte.lf) :
    normalize (u ++ v) = normalize u ++ normalize v := by
  induction u with
  | nil => rfl
  | cons b u ih =>
    have hpair : opensPair b (u ++ v) = opensPair b u := by
      cases u with
      | nil =>
        rw [List.nil_append, Bool.eq_iff_iff, opensPair_iff, opensPair_iff]
        refine and_congr_right fun hb => ?_
        have := h (congrArg some hb)
        simpa using this
      | cons c u => rfl
    have hu : normalize (u ++ v) = normalize u ++ normalize v := ih fun hlast => by
      refine h ?_
      rw [List.getLast?_cons, hlast, Option.getD_some]
    cases hb : opensPair b u with
    | true =>
      rw [List.cons_append, normalize_pair (hpair.trans hb), normalize_pair hb, hu]
    | false =>
      rw [List.cons_append, normalize_cons (hpair.trans hb), normalize_cons hb, hu,
        List.cons_append]

/-- What is put behind a source leaves its normalized bytes as they are. -/
theorem exists_normalize_append (u v : List UInt8) :
    ∃ w, normalize (u ++ v) = normalize u ++ w := by
  by_cases h : u.getLast? = some Byte.cr ∧ v.head? = some Byte.lf
  · obtain ⟨u, rfl⟩ := List.getLast?_eq_some_iff.1 h.1
    obtain ⟨v, rfl⟩ := List.head?_eq_some_iff.1 h.2
    have hseam : ∀ v, normalize (u ++ Byte.cr :: v) = normalize u ++ normalize (Byte.cr :: v) :=
      fun v => normalize_append fun _ => by rw [List.head?_cons]; decide
    refine ⟨normalize v, ?_⟩
    rw [List.append_assoc, List.singleton_append, hseam, hseam, List.append_assoc]
    rfl
  · rw [not_and] at h
    exact ⟨normalize v, normalize_append h⟩

/-- A source can be cut where the normalized source can. -/
theorem normalize_eq_append (h : normalize source = x ++ y) :
    ∃ u v, source = u ++ v ∧ normalize u = x ∧ normalize v = y := by
  cases x with
  | nil => exact ⟨[], source, rfl, rfl, h⟩
  | cons b x =>
    fun_induction normalize source generalizing b x with
    | case1 => cases h
    | case2 c rest hpair ih =>
      obtain ⟨u, v, rfl, hu, hv⟩ := ih b x h
      refine ⟨c :: u, v, rfl, ?_, hv⟩
      cases u with
      | nil => cases hu
      | cons d u =>
        have hpair' : opensPair c (d :: u) = true := hpair
        rw [normalize_pair hpair', hu]
    | case3 c rest hpair ih =>
      obtain ⟨rfl, hrest⟩ := List.cons.inj h
      cases x with
      | nil => exact ⟨[c], rest, rfl, normalize_cons (by simp [opensPair]), hrest⟩
      | cons d x =>
        obtain ⟨u, v, rfl, hu, hv⟩ := ih d x hrest
        refine ⟨c :: u, v, rfl, ?_, hv⟩
        cases u with
        | nil => cases hu
        | cons e u =>
          have hpair' : opensPair c (e :: u) = false := Bool.eq_false_iff.2 hpair
          rw [normalize_cons hpair', hu]

/-- Bytes that end no line are normalized as they are, and from nothing else. -/
theorem eq_of_normalize_eq (h : normalize source = w) (hw : Byte.lf ∉ w) : source = w := by
  subst h
  fun_induction normalize source with
  | case1 => rfl
  | case2 c rest hpair ih =>
    -- the line feed of the pair would be left
    obtain ⟨-, hnext⟩ := opensPair_iff.1 hpair
    rw [ih hw] at hnext
    exact absurd (List.mem_of_head? hnext) hw
  | case3 c rest hpair ih =>
    by_cases hcr : c = Byte.cr
    · exact absurd (by simp [hcr]) hw
    · rw [← ih (List.not_mem_of_not_mem_cons hw)]
      simp [hcr]

theorem eq_nil_of_normalize_eq_nil (h : normalize source = []) : source = [] :=
  eq_of_normalize_eq h List.not_mem_nil

/-- Bytes that end no line cut the source where they cut the normalized source. -/
theorem normalize_eq_append_append (hw : Byte.lf ∉ w) (h : normalize source = x ++ (w ++ y)) :
    ∃ u v, source = u ++ (w ++ v) ∧ normalize u = x ∧ normalize v = y := by
  obtain ⟨u, behind, rfl, hu, hbehind⟩ := normalize_eq_append h
  obtain ⟨w', v, rfl, hw', hv⟩ := normalize_eq_append hbehind
  rw [eq_of_normalize_eq hw' hw]
  exact ⟨u, v, rfl, hu, hv⟩

theorem normalize_eq_append_cons (h : normalize source = x ++ b :: y) (hb : b ≠ Byte.lf) :
    ∃ u v, source = u ++ b :: v ∧ normalize u = x ∧ normalize v = y :=
  normalize_eq_append_append (w := [b]) (by simpa using Ne.symm hb) h

end ScalaLex
