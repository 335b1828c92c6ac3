import ScalaLex.Proofs.LastLine
import ScalaLex.Proofs.LineEndings
import ScalaLex.Proofs.Placing
import ScalaLex.Proofs.Reading

/-!
# What is reported of the last line

At the end of the input the scanner reports whether the last line is blank, and the last byte on
it that is neither space nor tab. A machine keeps this for the bytes that it dispatches
(`Machine.Tracks`) : these are all bytes of the source but the second ones of the delimiters of
comments (`Piece.dispatched`, `Machine.tracks_run`).

So the byte that is reported is that of the dispatched bytes, and a line feed that ends the last
line is on that line when it comes to be blank (`lastLine_parse`). The first makes a difference
at the delimiters of block comments only, and the second where nothing but spaces and tabs comes
before the line feed (`blank_line_reported`).
-/

namespace ScalaLex

variable {s t w text body inner before rest : List UInt8} {b x y : UInt8} {d : Delimiter}

/-! ## The line of a machine -/

/-- The mark that is kept for the last one of a line : it is that one, or it is the first byte
of a delimiter of a block comment and the last mark is the second. -/
def KeptFor (mark kept : Option UInt8) : Prop :=
  kept = mark ∨ (kept = some 0x2F ∧ mark = some 0x2A) ∨ (kept = some 0x2A ∧ mark = some 0x2F)

theorem Line.isBlank_track (l : Line) (b : UInt8) :
    (l.track b).isBlank = (l.isBlank && Byte.isGap b) := by
  unfold track isBlank Byte.isGap
  split
  · rename_i hgap
    simp [hgap]
  · rename_i hgap
    rw [Bool.not_eq_true] at hgap
    simp [hgap]

theorem Line.last?_track (l : Line) (b : UInt8) : (l.track b).last? =
    if Byte.isGap b || b == Byte.lf then l.last? else some b := by
  unfold track Byte.isGap
  cases b == 0x20 || b == 0x09 <;> simp

/-- The bytes of a piece that are dispatched, which are all but the second ones of the
delimiters of a comment. -/
def Piece.dispatched (p : Piece) : List UInt8 :=
  match p.mode with
  | .inComment => if p.closed then (p.skipped.eraseIdx 1).dropLast else p.skipped.eraseIdx 1
  | .inLineComment => p.skipped.eraseIdx 1
  | .regular | .inNumber | .inString | .inChar => p.bytes

namespace Machine

variable {m : Machine} {next? : Option UInt8}

/-- The machine has read `s` and has dispatched the bytes `t` of it. All bytes tell whether its
line is blank, and a line feed at their end does not let it be; the last mark is told by those
that were dispatched. -/
structure Tracks (s t : List UInt8) (m : Machine) : Prop where
  previous : m.previous? = some Byte.lf ↔ s.getLast? = some Byte.lf
  dispatched : t.getLast? = some Byte.lf ↔ s.getLast? = some Byte.lf
  isBlank : m.line.isBlank = (s.getLast? != some Byte.lf && (lastLine s).all Byte.isGap)
  last : m.line.last? = lastMark (lastLine t)
  kept : KeptFor (lastMark (lastLine s)) (lastMark (lastLine t))

theorem tracks_start : Tracks [] [] {} where
  previous := by simp
  dispatched := Iff.rfl
  isBlank := rfl
  last := rfl
  kept := Or.inl rfl

/-- The line that the next byte comes on. -/
theorem Tracks.startLine (h : Tracks s t m) :
    m.startByte.line.isBlank = (openLine s).all Byte.isGap ∧
      m.startByte.line.last? = lastMark (openLine t) ∧
      KeptFor (lastMark (openLine s)) (lastMark (openLine t)) := by
  unfold startByte
  by_cases hlf : s.getLast? = some Byte.lf
  · rw [openLine_eq_nil hlf, openLine_eq_nil (h.dispatched.2 hlf), h.previous.2 hlf]
    exact ⟨rfl, rfl, Or.inl rfl⟩
  · have hprevious : (m.previous? == some Byte.lf) = false :=
      beq_eq_false_iff_ne.2 (mt h.previous.1 hlf)
    have hkept := h.kept
    have hs := lastLine_eq_openLine hlf
    have ht := lastLine_eq_openLine (mt h.dispatched.1 hlf)
    rw [hs, ht] at hkept
    rw [hprevious, if_neg Bool.false_ne_true, h.isBlank, h.last, hs, ht, bne_iff_ne.2 hlf,
      Bool.true_and]
    exact ⟨rfl, rfl, hkept⟩

/-- One byte is dispatched. -/
theorem Tracks.read (h : Tracks s t m) (b : UInt8) (next? : Option UInt8) :
    Tracks (s ++ [b]) (t ++ [b]) (m.read b next?).settled := by
  obtain ⟨hblank, hlast, hkept⟩ := h.startLine
  have hline : (m.read b next?).settled.line = m.startByte.line.track b := by
    rw [Machine.read, Step.settled, dispatch_line]
  have hprevious : (m.read b next?).settled.previous? = some Byte.lf ↔ b = Byte.lf := by
    rw [Machine.read, Step.settled]
    exact Option.some_inj.trans (dispatch_remembered_eq_lf _ _ _)
  refine ⟨?_, by simp, ?_, ?_, ?_⟩
  · rw [hprevious, List.getLast?_concat, Option.some_inj]
  · rw [hline, Line.isBlank_track, hblank, List.getLast?_concat]
    by_cases hb : b = Byte.lf
    · simp [hb, show Byte.isGap Byte.lf = false from rfl]
    · simp [lastLine_append hb, hb]
  · rw [hline, Line.last?_track, hlast]
    by_cases hb : b = Byte.lf
    · simp [hb, lastLine_append_lf]
    · simp [lastLine_append hb, lastMark_append, hb]
  · by_cases hb : b = Byte.lf
    · rwa [hb, lastLine_append_lf, lastLine_append_lf]
    · rw [lastLine_append hb, lastLine_append hb, lastMark_append, lastMark_append]
      split
      · exact hkept
      · exact Or.inl rfl

/-- Of the two bytes of a delimiter of a comment only the first is dispatched. -/
theorem Tracks.readTwo (h : Tracks s t m) (hx : x = 0x2F ∨ x = 0x2A) (hy : y = 0x2F ∨ y = 0x2A)
    (next? : Option UInt8) : Tracks (s ++ [x, y]) (t ++ [x]) (m.read x next?).settled := by
  have hread := h.read x next?
  have hmark : ∀ {b : UInt8}, b = 0x2F ∨ b = 0x2A → Byte.isGap b = false ∧ b ≠ Byte.lf := by
    rintro b (rfl | rfl) <;> decide
  obtain ⟨hxgap, hxlf⟩ := hmark hx
  obtain ⟨hygap, hylf⟩ := hmark hy
  have hsplit : s ++ [x, y] = s ++ [x] ++ [y] := by simp
  have hends : (s ++ [x] ++ [y]).getLast? = some Byte.lf ↔
      (s ++ [x]).getLast? = some Byte.lf := by simp [hxlf, hylf]
  rw [hsplit]
  refine ⟨hread.previous.trans hends.symm, hread.dispatched.trans hends.symm, ?_, hread.last, ?_⟩
  · rw [hread.isBlank, lastLine_append hylf, lastLine_append hxlf, openLine_append hxlf]
    simp [hxgap]
  · rw [lastLine_append hylf, lastLine_append hxlf, lastMark_append, lastMark_append, hxgap, hygap]
    rcases hx with rfl | rfl <;> rcases hy with rfl | rfl <;> simp [KeptFor]

/-! ## Runs -/

/-- The machine is outside every construct, or in a number. -/
def Outside (m : Machine) : Prop := m.mode = .regular ∨ m.mode = .inNumber

theorem regular_outside (hm : m.mode = .regular)
    (hopen : Delimiter.opening? (b :: rest) = none) :
    (m.regular b rest.head?).two = false ∧ Outside (m.regular b rest.head?).machine := by
  by_cases hword : Byte.isWord b = true
  · rw [regular_word hword]
    exact ⟨rfl, Or.inl hm⟩
  by_cases hdigit : Byte.isDigit b = true
  · rw [regular_digit hdigit]
    exact ⟨rfl, Or.inr rfl⟩
  by_cases hblank : Byte.isBlank b = true
  · rw [regular_blank hblank]
    exact ⟨rfl, Or.inl ((flush_mode m).trans hm)⟩
  · rw [regular_symbol hopen (by simp_all)]
    exact ⟨rfl, Or.inl ((flush_mode _).trans ((flush_mode m).trans hm))⟩

/-- A byte that opens nothing is taken alone. -/
theorem read_outside (hm : Outside m) (hopen : Delimiter.opening? (b :: rest) = none) :
    (m.read b rest.head?).two = false ∧ Outside (m.read b rest.head?).settled := by
  rcases hm with hm | hm
  · rw [read_regular hm]
    exact regular_outside (m := m.startOn b) hm hopen
  · cases hcont : continuesNumber m.previous? b with
    | true =>
      rw [read_inNumber hm hcont]
      exact ⟨rfl, Or.inr hm⟩
    | false =>
      rw [read_inNumber_of_not hm hcont, read_regular rfl]
      exact regular_outside rfl hopen

/-- An opener is taken at once. -/
theorem read_opener (hm : Outside m) (d : Delimiter) (hs : d.opener ++ body = b :: rest) :
    (m.read b rest.head?).two = (d.opener.length == 2) ∧
      (m.read b rest.head?).settled.mode = d.mode := by
  rcases hm with hm | hm
  · rw [read_regular hm, regular_opener d _ body hs]
    exact ⟨rfl, rfl⟩
  · have hcont : continuesNumber m.previous? b = false := by
      cases d <;> obtain ⟨rfl, -⟩ := List.cons.inj hs <;> rfl
    rw [read_inNumber_of_not hm hcont, read_regular rfl, regular_opener d _ body hs]
    exact ⟨rfl, rfl⟩

theorem tracks_one (hm : Outside m) (h : Tracks s t m) (hb : b ≠ Byte.cr)
    (hopen : Delimiter.opening? (b :: rest) = none) :
    ∃ m', m.run (b :: rest) = m'.run rest ∧ Outside m' ∧ Tracks (s ++ [b]) (t ++ [b]) m' := by
  obtain ⟨htwo, hout⟩ := read_outside hm hopen
  refine ⟨_, ?_, hout, h.read b rest.head?⟩
  rw [run_byte hb, htwo]
  rfl

/-- Bytes that open nothing are dispatched one by one. -/
theorem tracks_outside (hm : Outside m) (h : Tracks s t m) (hcr : Byte.cr ∉ w)
    (hopen : ∀ b ∈ w, ∀ v, Delimiter.opening? (b :: v) = none) (rest : List UInt8) :
    ∃ m', m.run (w ++ rest) = m'.run rest ∧ Outside m' ∧ Tracks (s ++ w) (t ++ w) m' := by
  induction w generalizing s t m with
  | nil => exact ⟨m, rfl, hm, by simpa using h⟩
  | cons b w ih =>
    obtain ⟨m₁, hrun₁, hm₁, htracks₁⟩ := tracks_one hm h (List.ne_of_not_mem_cons hcr).symm
      (hopen b List.mem_cons_self (w ++ rest))
    obtain ⟨m₂, hrun₂, hm₂, htracks₂⟩ := ih hm₁ htracks₁ (List.not_mem_of_not_mem_cons hcr)
      fun c hc => hopen c (List.mem_cons_of_mem _ hc)
    refine ⟨m₂, hrun₁.trans hrun₂, hm₂, ?_⟩
    simpa using htracks₂

theorem tracks_opener (hm : Outside m) (h : Tracks s t m) (d : Delimiter) (body : List UInt8) :
    ∃ m', m.run (d.opener ++ body) = m'.run body ∧ Sees d [] m' ∧
      Tracks (s ++ d.opener) (t ++ d.opener.take 1) m' := by
  obtain ⟨b, rest, hs⟩ := List.exists_cons_of_ne_nil
    (List.append_ne_nil_of_left_ne_nil d.opener_ne_nil body)
  obtain ⟨htwo, hmode⟩ := read_opener hm d hs
  refine ⟨(m.read b rest.head?).settled, ?_, ⟨hmode, fun _ => ?_⟩, ?_⟩
  · have hcr : b ≠ Byte.cr := by cases d <;> obtain ⟨rfl, -⟩ := List.cons.inj hs <;> decide
    rw [hs, run_byte hcr, htwo]
    cases d <;> obtain ⟨-, rfl⟩ := List.cons.inj hs <;> rfl
  · have hremembered : (m.read b rest.head?).remembered ≠ 0x5C := by
      rcases dispatch_remembered (m.startOn b) b rest.head? with hr | ⟨-, hr⟩
      · rw [read_eq, hr]
        cases d <;> obtain ⟨rfl, -⟩ := List.cons.inj hs <;> decide
      · rw [read_eq, hr]
        decide
    simp [Step.settled, hremembered, trailingBackslashes]
  · cases d with
    | blockComment | lineComment =>
      obtain ⟨rfl, -⟩ := List.cons.inj hs
      exact h.readTwo (by decide) (by decide) _
    | string | char =>
      obtain ⟨rfl, -⟩ := List.cons.inj hs
      exact h.read _ _

/-- The body of a construct is dispatched byte by byte. -/
theorem tracks_inside (hm : Sees d before m) (h : Tracks s t m) (hcr : Byte.cr ∉ w)
    (rest : List UInt8) (hopen : ∀ u v, w ++ rest = u ++ v → u.length < w.length →
      d.closes (before ++ u) v = false) :
    ∃ m', m.run (w ++ rest) = m'.run rest ∧ Sees d (before ++ w) m' ∧
      Tracks (s ++ w) (t ++ w) m' := by
  induction w generalizing s t m before with
  | nil => exact ⟨m, rfl, by rwa [List.append_nil], by simpa using h⟩
  | cons b w ih =>
    have hb : b ≠ Byte.cr := (List.ne_of_not_mem_cons hcr).symm
    have hstay : d.closes before (b :: (w ++ rest)) = false := by
      have := hopen [] (b :: (w ++ rest)) rfl (Nat.succ_pos _)
      rwa [List.append_nil] at this
    obtain ⟨r, hread, hsees⟩ := read_inside hm hstay
    have htracks := h.read b (w ++ rest).head?
    rw [hread] at htracks
    obtain ⟨m', hrun, hm', htracks'⟩ := ih hsees htracks (List.not_mem_of_not_mem_cons hcr)
      fun u v huv hu => by
        rw [List.append_assoc]
        exact hopen (b :: u) v (congrArg (b :: ·) huv) (Nat.succ_lt_succ hu)
    refine ⟨m', ?_, by simpa using hm', by simpa using htracks'⟩
    rw [List.cons_append, run_byte hb, hread]
    exact hrun

theorem tracks_closer (hm : Sees d before m) (h : Tracks s t m)
    (hclose : d.closes before (d.closer ++ rest) = true) :
    ∃ m', m.run (d.closer ++ rest) = m'.run rest ∧ m'.mode = .regular ∧
      Tracks (s ++ d.closer) (t ++ d.closer.take 1) m' := by
  obtain ⟨b, tail, hs⟩ := List.exists_cons_of_ne_nil
    (List.append_ne_nil_of_left_ne_nil d.closer_ne_nil rest)
  rw [hs] at hclose ⊢
  have hread := read_closer hm hclose
  have htracks := h.read b tail.head?
  rw [hread] at htracks
  refine ⟨{ (m.startOn b).behind d with previous? := some b }, ?_, by cases d <;> rfl, ?_⟩
  · have hcr : b ≠ Byte.cr := by cases d <;> obtain ⟨rfl, -⟩ := List.cons.inj hs <;> decide
    rw [run_byte hcr, hread]
    cases d <;> obtain ⟨-, rfl⟩ := List.cons.inj hs <;> rfl
  · cases d with
    | blockComment =>
      obtain ⟨rfl, -⟩ := List.cons.inj hs
      have htwo := h.readTwo (x := 0x2A) (y := 0x2F) (by decide) (by decide) tail.head?
      rwa [hread] at htwo
    | lineComment | string | char =>
      obtain ⟨rfl, -⟩ := List.cons.inj hs
      exact htracks

/-! ## Pieces -/

theorem dispatched_unclosed (d : Delimiter) (body : List UInt8) :
    (⟨d.mode, d.opener ++ body, [], !d.mode.swallowsInput⟩ : Piece).dispatched =
      d.opener.take 1 ++ body := by
  cases d <;> simp [Piece.dispatched, Piece.bytes, Delimiter.opener, Delimiter.mode,
    Mode.swallowsInput]

theorem dispatched_closed (d : Delimiter) (inner : List UInt8) :
    (⟨d.mode, d.opener ++ inner ++ d.closer, [], true⟩ : Piece).dispatched =
      d.opener.take 1 ++ inner ++ d.closer.take 1 := by
  cases d with
  | blockComment =>
    have hlast : (0x2F :: (inner ++ [0x2A, 0x2F])).dropLast = 0x2F :: (inner ++ [0x2A]) := by
      rw [← List.cons_append, List.dropLast_append_of_ne_nil (List.cons_ne_nil _ _)]
      rfl
    simpa [Piece.dispatched, Delimiter.opener, Delimiter.closer, Delimiter.mode] using hlast
  | lineComment | string | char =>
    simp [Piece.dispatched, Piece.bytes, Delimiter.opener, Delimiter.closer, Delimiter.mode]

theorem tracks_unclosed (hm : Outside m) (h : Tracks s t m) (hcr : Byte.cr ∉ body)
    (hclose : d.close? [] body = none) : ∃ m', m.run (d.opener ++ body) = m'.run [] ∧
      Tracks (s ++ (d.opener ++ body)) (t ++ (d.opener.take 1 ++ body)) m' := by
  obtain ⟨m₁, hrun₁, hsees₁, htracks₁⟩ := tracks_opener hm h d body
  obtain ⟨m₂, hrun₂, -, htracks₂⟩ := tracks_inside hsees₁ htracks₁ hcr []
    fun u v huv _ => Delimiter.close?_eq_none_iff.1 hclose u v (by rw [← huv, List.append_nil])
  rw [List.append_assoc, List.append_assoc] at htracks₂
  exact ⟨m₂, by rw [hrun₁, ← hrun₂, List.append_nil], htracks₂⟩

theorem tracks_closed (hm : Outside m) (h : Tracks s t m) (hcr : Byte.cr ∉ inner)
    (hclose : d.close? [] (inner ++ d.closer ++ rest) = some (inner, rest)) :
    ∃ m' : Machine, m.run (d.opener ++ (inner ++ d.closer ++ rest)) = m'.run rest ∧
      m'.mode = .regular ∧ Tracks (s ++ (d.opener ++ inner ++ d.closer))
        (t ++ (d.opener.take 1 ++ inner ++ d.closer.take 1)) m' := by
  obtain ⟨-, hend, hfirst⟩ := Delimiter.close?_eq_some_iff.1 hclose
  obtain ⟨m₁, hrun₁, hsees₁, htracks₁⟩ := tracks_opener hm h d (inner ++ d.closer ++ rest)
  obtain ⟨m₂, hrun₂, hsees₂, htracks₂⟩ := tracks_inside hsees₁ htracks₁ hcr (d.closer ++ rest)
    fun u v huv hu => hfirst u v (by rw [← huv, List.append_assoc]) hu
  obtain ⟨m₃, hrun₃, hmode, htracks₃⟩ := tracks_closer hsees₂ htracks₂ hend
  refine ⟨m₃, ?_, hmode, by simpa only [List.append_assoc] using htracks₃⟩
  rw [hrun₁, List.append_assoc, hrun₂, hrun₃]

/-- A word is read to its end. -/
theorem tracks_word (hm : Outside m) (h : Tracks s t m) (hcr : Byte.cr ∉ rest) :
    ∃ m' : Machine, m.run rest = m'.run (rest.dropWhile Byte.isWord) ∧ Outside m' ∧
      Tracks (s ++ rest.takeWhile Byte.isWord) (t ++ rest.takeWhile Byte.isWord) m' := by
  have hword : ∀ c ∈ rest.takeWhile Byte.isWord, Byte.isWord c = true :=
    List.all_eq_true.1 List.all_takeWhile
  obtain ⟨m', hrun, hm', htracks⟩ := tracks_outside hm h
    (fun hmem => hcr ((List.takeWhile_prefix _).subset hmem))
    (fun c hc => Delimiter.opening?_of_class (by simp [hword c hc])) (rest.dropWhile Byte.isWord)
  rw [List.takeWhile_append_dropWhile] at hrun
  exact ⟨m', hrun, hm', htracks⟩

/-- The machine reads the front piece of a source. -/
theorem tracks_front (hm : Outside m) (h : Tracks s t m) (hcr : Byte.cr ∉ b :: rest) :
    ∃ m', m.run (b :: rest) = m'.run (Piece.front b rest).2 ∧
      ((Piece.front b rest).2 ≠ [] → Outside m') ∧
      Tracks (s ++ (Piece.front b rest).1.bytes) (t ++ (Piece.front b rest).1.dispatched) m' := by
  have hb : b ≠ Byte.cr := (List.ne_of_not_mem_cons hcr).symm
  have hspec := Piece.front_spec b rest
  generalize (Piece.front b rest).1 = p, (Piece.front b rest).2 = behind at hspec ⊢
  cases hspec with
  | unclosed hs hclose =>
    rw [hs] at hcr ⊢
    obtain ⟨m', hrun, htracks⟩ :=
      tracks_unclosed hm h (fun hmem => hcr (List.mem_append_right _ hmem)) hclose
    refine ⟨m', hrun, fun hne => absurd rfl hne, ?_⟩
    rw [dispatched_unclosed, Piece.bytes, List.append_nil]
    exact htracks
  | closed _ hs hclose =>
    rw [hs] at hcr ⊢
    obtain ⟨m', hrun, hmode, htracks⟩ :=
      tracks_closed hm h (fun hmem => hcr (by simp [hmem])) hclose
    refine ⟨m', hrun, fun _ => Or.inl hmode, ?_⟩
    rw [dispatched_closed, Piece.bytes, List.append_nil]
    exact htracks
  | @char inner behind hs hclose =>
    rw [hs] at hcr ⊢
    have hbehind : Byte.cr ∉ behind := fun hmem => hcr (by simp [hmem])
    obtain ⟨m₁, hrun₁, hmode₁, htracks₁⟩ :=
      tracks_closed hm h (fun hmem => hcr (by simp [hmem])) hclose
    obtain ⟨m₂, hrun₂, hm₂, htracks₂⟩ := tracks_word (Or.inl hmode₁) htracks₁ hbehind
    refine ⟨m₂, hrun₁.trans hrun₂, fun _ => hm₂, ?_⟩
    show Tracks (s ++ (Delimiter.char.opener ++ _ ++ (Delimiter.char.closer ++ _)))
      (t ++ (Delimiter.char.opener.take 1 ++ _ ++ (Delimiter.char.closer.take 1 ++ _))) m₂
    simpa only [List.append_assoc] using htracks₂
  | number hdigit =>
    have hsplit : b :: numberRun b rest ++ rest.drop (numberRun b rest).length = b :: rest :=
      congrArg (b :: ·) (numberRun_append_drop b rest)
    obtain ⟨m', hrun, hm', htracks⟩ := tracks_outside hm h
      (fun hmem => hcr (hsplit ▸ List.mem_append_left _ hmem))
      (fun c hc => Delimiter.opening?_of_ne
        (Byte.ne_of_isNumberPart (isNumberPart_of_mem_number hdigit hc)))
      (rest.drop (numberRun b rest).length)
    rw [hsplit] at hrun
    exact ⟨m', hrun, fun _ => hm', htracks⟩
  | word hword =>
    obtain ⟨m₁, hrun₁, hm₁, htracks₁⟩ :=
      tracks_one hm h hb (Delimiter.opening?_of_class (by simp [hword]) rest)
    obtain ⟨m₂, hrun₂, hm₂, htracks₂⟩ :=
      tracks_word hm₁ htracks₁ (List.not_mem_of_not_mem_cons hcr)
    rw [List.append_assoc, List.append_assoc] at htracks₂
    exact ⟨m₂, hrun₁.trans hrun₂, fun _ => hm₂, htracks₂⟩
  | blank hblank =>
    obtain ⟨m', hrun, hm', htracks⟩ :=
      tracks_one hm h hb (Delimiter.opening?_of_class (by simp [hblank]) rest)
    exact ⟨m', hrun, fun _ => hm', htracks⟩
  | symbol hopen =>
    obtain ⟨m', hrun, hm', htracks⟩ := tracks_one hm h hb hopen
    exact ⟨m', hrun, fun _ => hm', htracks⟩

theorem tracks_run (hm : Outside m) (h : Tracks s t m) (hcr : Byte.cr ∉ text) :
    Tracks (s ++ text) (t ++ (pieces text).flatMap Piece.dispatched) (m.run text) := by
  fun_induction pieces text generalizing s t m with
  | case1 => simpa [run] using h
  | case2 b rest ih =>
    obtain ⟨m', hrun, hm', htracks⟩ := tracks_front hm h hcr
    have hbytes := Piece.bytes_front b rest
    rw [hrun, List.flatMap_cons, ← List.append_assoc]
    cases hrest : (Piece.front b rest).2 with
    | nil =>
      rw [hrest, List.append_nil] at hbytes
      rw [pieces, run, List.flatMap_nil, List.append_nil, ← hbytes]
      exact htracks
    | cons c rest' =>
      have hbehind := ih (hm' (by simp [hrest])) htracks fun hmem => by
        rw [← hbytes] at hcr
        exact hcr (List.mem_append_right _ hmem)
      rwa [List.append_assoc, hbytes, hrest] at hbehind

/-- What a scan keeps of the last line. -/
theorem exists_tracks_scan (source : List UInt8) : ∃ m, m.line = (scan source).line ∧
    Tracks (normalize source) ((pieces (normalize source)).flatMap Piece.dispatched) m := by
  have htracks := tracks_run (Or.inl rfl) tracks_start
    fun hmem : Byte.cr ∈ normalize source => ne_cr_of_mem_normalize hmem rfl
  rw [List.nil_append, List.nil_append, run_normalize] at htracks
  exact ⟨_, (flush_line _).symm, htracks⟩

end Machine

/-! ## The figures -/

/-- The bytes of a source that are dispatched. -/
def dispatchedOf (source : List UInt8) : List UInt8 :=
  (pieces (normalize source)).flatMap Piece.dispatched

/-- A mark as it is reported, and a space for none. -/
def markText (mark : Option UInt8) : String :=
  String.singleton (mark.elim ' ' fun b => Char.ofNat b.toNat)

theorem context_endEvent (m : Machine) : (Scanner.endEvent m).context =
    [("final_state", m.mode.name), ("last_line_blank", Pairs.truth m.line.isBlank),
      ("last_line_ends_with", markText m.line.last?)] := by
  have hmark : String.singleton m.line.endsWith = markText m.line.last? := by
    rw [Line.endsWith, markText]
    cases m.line.last? <;> rfl
  have hblank : Text.precedes "last_line_blank" "final_state" = false := by decide
  have hends : Text.precedes "last_line_ends_with" "final_state" = false ∧
      Text.precedes "last_line_ends_with" "last_line_blank" = false := by decide
  rw [← hmark]
  simp [Scanner.endEvent, Event.debug, Event.withPairs, Event.withPair, Pairs.add, Pairs.insert,
    Pairs.limit, hblank, hends]

/-- The scanner reports on the last line when it has reached the end of the input. That line is
blank for it if there is nothing but spaces and tabs on it and no line feed at its end, and the
byte that it ends with is read off the bytes that were dispatched. That is the right one, or the
first byte of a delimiter of a block comment in place of the second. The line is the one that
the figures have as the number of lines. -/
theorem lastLine_parse (s : Scanner) (elapsed : Span) (source : List UInt8) :
    let scan := Machine.scan source
    let text := normalize source
    (s.parse elapsed source).entries[1]? = some ⟨none, Scanner.endEvent scan⟩ ∧
    (Scanner.endEvent scan).context =
      [("final_state", scan.mode.name),
        ("last_line_blank",
          Pairs.truth (text.getLast? != some Byte.lf && (lastLine text).all Byte.isGap)),
        ("last_line_ends_with", markText (lastMark (lastLine (dispatchedOf source))))] ∧
    KeptFor (lastMark (lastLine text)) (lastMark (lastLine (dispatchedOf source))) ∧
    ∃ before, text = before ++ lastLine text ++ lastEnd text ∧
      (before = [] ∨ before.getLast? = some Byte.lf) ∧ Byte.lf ∉ lastLine text ∧
      (s.parse elapsed source).value.last.metrics.lineCount =
        UInt32.ofNat (1 + before.count Byte.lf) := by
  intro scan text
  obtain ⟨m, hline, htracks⟩ := Machine.exists_tracks_scan source
  obtain ⟨before, htext, hbefore, hlf⟩ := exists_lastLine text
  refine ⟨rfl, ?_, htracks.kept, before, htext, hbefore, hlf, ?_⟩
  · rw [context_endEvent, ← hline, htracks.isBlank, htracks.last]
    rfl
  · have hnumber : (s.parse elapsed source).value.last.metrics.lineCount =
        UInt32.ofNat (lineAt source (source.length - 1)) := by
      rw [← Machine.lineNumber_run, ← Machine.flush_line]
      rfl
    rw [hnumber, lineAt_last htext hlf]

/-- An empty line with a line feed at its end is reported as not blank, and a line that ends in
the closer of a block comment as one that ends in an asterisk. -/
theorem blank_line_reported :
    (Machine.scan [0x0A]).line.isBlank = false ∧ lastLine (normalize [0x0A]) = [] ∧
    (Machine.scan [0x2F, 0x2A, 0x2A, 0x2F]).line.last? = some 0x2A ∧
    lastMark (lastLine (normalize [0x2F, 0x2A, 0x2A, 0x2F])) = some 0x2F ∧
    ¬∀ source : List UInt8, (Scanner.endEvent (Machine.scan source)).context =
      [("final_state", (Machine.scan source).mode.name),
        ("last_line_blank", Pairs.truth ((lastLine (normalize source)).all Byte.isGap)),
        ("last_line_ends_with", markText (lastMark (lastLine (normalize source))))] := by
  have hblank : (Machine.scan [0x0A]).line.isBlank = false := by decide
  have hempty : lastLine (normalize [0x0A]) = [] := by decide
  refine ⟨hblank, hempty, by decide, by decide, fun h => ?_⟩
  have hcontext := h [0x0A]
  rw [context_endEvent, hblank, hempty] at hcontext
  have hvalue : Pairs.truth false = Pairs.truth true :=
    (Prod.mk.inj (List.cons.inj (List.cons.inj hcontext).2).1).2
  exact absurd hvalue (by decide)

end ScalaLex
