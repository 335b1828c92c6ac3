import ScalaLex.Proofs.Dispatch
import ScalaLex.Scan.Metrics

/-!
# The machine reads pieces

A machine between two pieces is outside every construct and has nothing pending. From
there it takes in the next piece : the lexemes it has finished, the constructs it has
opened and the line it is on change as the piece says (`Progress.add`), and it stands
between two pieces again or has come to the end of the source (`Takes`, `takes_front`). So a
run over a normalized source adds up its pieces (`progress_run`).

There is a lemma for each way to read on. `run_word` and `run_number` gather bytes,
`run_flush` finishes what is pending, `run_opener` enters a construct, and `run_inside` goes
through its body.
-/

namespace ScalaLex

/-- What a machine between two pieces has to show. -/
@[ext]
structure Progress where
  /-- The line of the next byte. -/
  line : UInt32
  /-- The finished lexemes, the last one first. -/
  finished : List Lexeme
  opened : Opened
  unterminated? : Option Unterminated

/-- What there is to show after one more piece. -/
def Progress.add (o : Progress) (p : Piece) : Progress where
  line := o.line + UInt32.ofNat (p.bytes.count Byte.lf)
  finished :=
    if p.lexeme.isEmpty then o.finished
    else ⟨p.lexeme, o.line + UInt32.ofNat (p.skipped.count Byte.lf)⟩ :: o.finished
  opened := o.opened.record p.mode
  unterminated? := if p.closed then none else some ⟨p.mode, o.line⟩

theorem Progress.add_finished {o : Progress} {p : Piece} (h : p.lexeme ≠ []) :
    (o.add p).finished =
      ⟨p.lexeme, o.line + UInt32.ofNat (p.skipped.count Byte.lf)⟩ :: o.finished := by
  simp [add, h]

theorem Progress.add_finished_of_skipped {o : Progress} {p : Piece} (h : p.lexeme ≠ [])
    (hs : p.skipped = []) : (o.add p).finished = ⟨p.lexeme, o.line⟩ :: o.finished := by
  rw [add_finished h, hs]
  exact congrArg (fun line => Lexeme.mk p.lexeme line :: o.finished) (UInt32.add_zero _)

/-- No line ends inside a word. -/
theorem count_lf_takeWhile_isWord (s : List UInt8) :
    (s.takeWhile Byte.isWord).count Byte.lf = 0 := by
  rw [List.count_eq_zero]
  intro hmem
  have hword : Byte.isWord Byte.lf = true := List.all_eq_true.1 List.all_takeWhile _ hmem
  cases hword

namespace Machine

/-- What the machine has to show. -/
def progress (m : Machine) : Progress := ⟨m.nextNumber, m.finished, m.opened, m.unterminated?⟩

variable {m m₁ m₂ : Machine} {b : UInt8} {next? : Option UInt8} {s u v w rest : List UInt8}
  {d : Delimiter} {before : List UInt8}

/-! ## Reading without finishing -/

/-- The bytes `w` led from one machine to the other, and finished no lexeme and opened no
construct. -/
structure Carries (m : Machine) (w : List UInt8) (m' : Machine) : Prop where
  finished : m'.finished = m.finished
  opened : m'.opened = m.opened
  openedAt : m'.openedAt = m.openedAt
  number : m'.nextNumber = m.nextNumber + UInt32.ofNat (w.count Byte.lf)

theorem Carries.refl (m : Machine) : Carries m [] m := ⟨rfl, rfl, rfl, by simp⟩

theorem Carries.trans (h₁ : Carries m u m₁) (h₂ : Carries m₁ v m₂) : Carries m (u ++ v) m₂ where
  finished := h₂.finished.trans h₁.finished
  opened := h₂.opened.trans h₁.opened
  openedAt := h₂.openedAt.trans h₁.openedAt
  number := by
    rw [h₂.number, h₁.number, List.count_append, UInt32.ofNat_add, UInt32.add_assoc]

/-- The line number moves on behind a line feed. -/
theorem settled_nextNumber (m : Machine) (b : UInt8) (next? : Option UInt8) :
    (m.read b next?).settled.nextNumber =
      m.nextNumber + UInt32.ofNat ([b].count Byte.lf) := by
  have hlf : (m.read b next?).settled.previous? = some Byte.lf ↔ b = Byte.lf := by
    rw [read, Step.settled]
    exact Option.some_inj.trans (dispatch_remembered_eq_lf _ _ _)
  rw [nextNumber_eq, read_number]
  by_cases h : b = Byte.lf
  · rw [if_pos (hlf.2 h), h]
    rfl
  · rw [if_neg (mt hlf.1 h)]
    simp [h]

theorem unterminated_eq_none (h : m.mode.swallowsInput = false) : m.unterminated? = none := by
  rw [unterminated?, h]
  rfl

theorem run_byte (hb : b ≠ Byte.cr) (m : Machine) (rest : List UInt8) :
    m.run (b :: rest) = (m.read b rest.head?).settled.run
      (if (m.read b rest.head?).two then rest.tail else rest) := by
  have hself : (if b == Byte.cr then Byte.lf else b) = b := by simp [hb]
  rw [run_cons, advance_cons m (by simp [opensPair, hb]), hself]

/-- A byte that is taken alone and changes nothing that shows. -/
theorem run_one (hb : b ≠ Byte.cr) {m' : Machine} {r : UInt8}
    (h : m.read b rest.head? = ⟨m', r, false⟩) (hfinished : m'.finished = m.finished)
    (hopened : m'.opened = m.opened) (hopenedAt : m'.openedAt = m.openedAt) :
    m.run (b :: rest) = { m' with previous? := some r }.run rest ∧
      Carries m [b] { m' with previous? := some r } := by
  have hnumber := settled_nextNumber m b rest.head?
  rw [h] at hnumber
  rw [run_byte hb, h]
  exact ⟨rfl, hfinished, hopened, hopenedAt, hnumber⟩

/-! ## Words -/

/-- A pending lexeme began on the line of its first byte. -/
theorem push_pendingLine (hp : m.pending = []) (b c : UInt8) :
    ((m.startOn b).push c).pendingLine = m.nextNumber := by
  have hempty : (m.startOn b).pending.isEmpty = true := by rw [startOn_pending, hp]; rfl
  rw [push, hempty]
  exact startOn_number m b

theorem push_lexeme (hp : m.pending = []) (b : UInt8) (w : List UInt8) :
    (⟨((m.startOn b).push b).pending.reverse ++ w, ((m.startOn b).push b).pendingLine⟩ : Lexeme) =
      ⟨b :: w, m.nextNumber⟩ := by
  rw [push_pendingLine hp, push, startOn_pending, hp]
  rfl

theorem run_word (hm : m.mode = .regular) (hp : m.pending ≠ [])
    (hw : ∀ b ∈ w, Byte.isWord b = true) (rest : List UInt8) :
    ∃ m', m.run (w ++ rest) = m'.run rest ∧ m'.mode = .regular ∧
      m'.pending = w.reverse ++ m.pending ∧ m'.pendingLine = m.pendingLine ∧ Carries m w m' := by
  induction w generalizing m with
  | nil => exact ⟨m, rfl, hm, rfl, rfl, .refl m⟩
  | cons b w ih =>
    have hb := hw b List.mem_cons_self
    have hcr : b ≠ Byte.cr := by
      rintro rfl
      cases hb
    have hread : m.read b (w ++ rest).head? = ⟨(m.startOn b).push b, b, false⟩ := by
      rw [read_regular hm, regular_word hb]
    obtain ⟨hrun, hone⟩ := run_one hcr hread rfl rfl rfl
    have hline : (m.startOn b).pending.isEmpty = false := by simp [hp]
    obtain ⟨m', hrun', hm', hpending, hpendingLine, hcarries⟩ :=
      ih (m := { (m.startOn b).push b with previous? := some b }) hm (List.cons_ne_nil _ _)
        fun c hc => hw c (List.mem_cons_of_mem _ hc)
    refine ⟨m', hrun.trans hrun', hm', ?_, ?_, ?_⟩
    · rw [hpending, List.reverse_cons, List.append_assoc]
      rfl
    · rw [hpendingLine, push, hline]
      rfl
    · exact hone.trans hcarries

/-- What does not go on with a word finishes what is pending. -/
theorem run_flush (hm : m.mode = .regular) (hcr : Byte.cr ∉ rest)
    (hstop : ∀ b, rest.head? = some b → Byte.isWord b = false) :
    (m.flush.run rest).flush = (m.run rest).flush := by
  cases rest with
  | nil => exact flush_flush m
  | cons b rest =>
    have hb : b ≠ Byte.cr := (List.ne_of_not_mem_cons hcr).symm
    have hread : m.flush.read b rest.head? = m.read b rest.head? := by
      rw [read_regular hm, read_regular ((flush_mode m).trans hm), startOn_flush,
        regular_flush (hstop b rfl)]
    rw [run_byte hb, run_byte hb, hread]

/-- A word at the front of the source is taken to what is pending, and the lexeme is
finished. -/
theorem run_takeWhile (hm : m.mode = .regular) (hp : m.pending ≠ []) (hcr : Byte.cr ∉ s) :
    ∃ m' : Machine, (m.run s).flush = (m'.run (s.dropWhile Byte.isWord)).flush ∧
      m'.mode = .regular ∧ m'.pending = [] ∧ m'.opened = m.opened ∧ m'.nextNumber = m.nextNumber ∧
      m'.finished =
        ⟨m.pending.reverse ++ s.takeWhile Byte.isWord, m.pendingLine⟩ :: m.finished := by
  have hw : ∀ b ∈ s.takeWhile Byte.isWord, Byte.isWord b = true := fun b hb =>
    List.all_eq_true.1 List.all_takeWhile b hb
  obtain ⟨m', hrun, hm', hpending, hpendingLine, hcarries⟩ :=
    run_word hm hp hw (s.dropWhile Byte.isWord)
  rw [List.takeWhile_append_dropWhile] at hrun
  have hstop : ∀ b, (s.dropWhile Byte.isWord).head? = some b → Byte.isWord b = false := by
    intro b hb
    have := List.head?_dropWhile_not Byte.isWord s
    rwa [hb] at this
  have hrest : Byte.cr ∉ s.dropWhile Byte.isWord := fun h =>
    hcr ((List.dropWhile_suffix _).subset h)
  refine ⟨m'.flush, ?_, (flush_mode m').trans hm', flush_pending m', ?_, ?_, ?_⟩
  · rw [hrun, run_flush hm' hrest hstop]
  · rw [flush_opened, hcarries.opened]
  · rw [flush_nextNumber, hcarries.number, count_lf_takeWhile_isWord]
    exact UInt32.add_zero _
  · have hne : m'.pending ≠ [] := by simp [hpending, hp]
    rw [flush_finished hne, hpending, hpendingLine, hcarries.finished, List.reverse_append,
      List.reverse_reverse]

/-! ## Numbers -/

theorem run_number (hm : m.mode = .inNumber) {before : UInt8} (hprev : m.previous? = some before)
    (hcr : Byte.cr ∉ s) :
    ∃ m' : Machine, m.run s = m'.run (s.drop (numberRun before s).length) ∧ m'.mode = .inNumber ∧
      m'.pending = (numberRun before s).reverse ++ m.pending ∧
      m'.pendingLine = m.pendingLine ∧ Carries m (numberRun before s) m' ∧
      ∀ b, (s.drop (numberRun before s).length).head? = some b →
        continuesNumber m'.previous? b = false := by
  induction s generalizing m before with
  | nil => exact ⟨m, rfl, hm, rfl, rfl, .refl m, nofun⟩
  | cons b s ih =>
    have hb : b ≠ Byte.cr := (List.ne_of_not_mem_cons hcr).symm
    have hstep : continuesNumber m.previous? b =
        (Byte.isNumeric b || (Byte.isSign b && Byte.isExponent before)) := by
      rw [hprev]
      rfl
    rw [numberRun]
    cases hcont : Byte.isNumeric b || (Byte.isSign b && Byte.isExponent before) with
    | false =>
      refine ⟨m, rfl, hm, rfl, rfl, .refl m, ?_⟩
      intro c hc
      obtain rfl : b = c := Option.some.inj hc
      rw [hstep, hcont]
    | true =>
      obtain ⟨hrun, hone⟩ := run_one hb (read_inNumber hm (hstep.trans hcont) s.head?) rfl rfl rfl
      obtain ⟨m', hrun', hm', hpending, hpendingLine, hcarries, hstop⟩ :=
        ih (m := { m.startOn b with pending := b :: (m.startOn b).pending, previous? := some b })
          hm rfl (List.not_mem_of_not_mem_cons hcr)
      refine ⟨m', hrun.trans hrun', hm', ?_, hpendingLine, hone.trans hcarries, hstop⟩
      rw [hpending, if_pos rfl, List.reverse_cons, List.append_assoc]
      rfl

/-- What does not go on with a number is read outside it. -/
theorem run_leaveNumber (hm : m.mode = .inNumber) (hcr : Byte.cr ∉ rest)
    (hstop : ∀ b, rest.head? = some b → continuesNumber m.previous? b = false) :
    ({ m.flush with mode := .regular }.run rest).flush.progress = (m.run rest).flush.progress := by
  cases rest with
  | nil =>
    have hnone : m.flush.unterminated? = none :=
      unterminated_eq_none (by rw [flush_mode, hm]; rfl)
    have hempty : { m.flush with mode := .regular }.pending = [] := flush_pending m
    rw [run, run, flush_of_pending_eq_nil hempty]
    ext1
    · exact nextNumber_congr rfl rfl
    · rfl
    · rfl
    · exact hnone.symm
  | cons b rest =>
    have hb : b ≠ Byte.cr := (List.ne_of_not_mem_cons hcr).symm
    rw [run_byte hb, run_byte hb, read_inNumber_of_not hm (hstop b rfl)]

/-- A number is gathered and its lexeme is finished. -/
theorem run_numberRun (hm : m.mode = .inNumber) {before : UInt8}
    (hprev : m.previous? = some before) (hp : m.pending ≠ []) (hcr : Byte.cr ∉ s) :
    ∃ m' : Machine, (m.run s).flush.progress =
        (m'.run (s.drop (numberRun before s).length)).flush.progress ∧ m'.mode = .regular ∧
      m'.pending = [] ∧ m'.opened = m.opened ∧
      m'.nextNumber = m.nextNumber + UInt32.ofNat ((numberRun before s).count Byte.lf) ∧
      m'.finished =
        ⟨m.pending.reverse ++ numberRun before s, m.pendingLine⟩ :: m.finished := by
  obtain ⟨m', hrun, hm', hpending, hpendingLine, hcarries, hstop⟩ := run_number hm hprev hcr
  have hne : m'.pending ≠ [] := by simp [hpending, hp]
  have hrest : Byte.cr ∉ s.drop (numberRun before s).length := fun h =>
    hcr (List.mem_of_mem_drop h)
  refine ⟨{ m'.flush with mode := .regular }, ?_, rfl, flush_pending m', ?_, ?_, ?_⟩
  · rw [hrun, run_leaveNumber hm' hrest hstop]
  · exact (flush_opened m').trans hcarries.opened
  · refine (nextNumber_congr ?_ ?_).trans hcarries.number
    · exact flush_previous m'
    · exact flush_line m'
  · refine (flush_finished hne).trans ?_
    rw [hpending, hpendingLine, hcarries.finished, List.reverse_append, List.reverse_reverse]

/-! ## Comments and quoted literals -/

/-- Between two closers that do not count the machine goes through the body. -/
theorem run_inside (rest : List UInt8) (hm : Sees d before m) (hp : m.pending = [])
    (hcr : Byte.cr ∉ w)
    (hopen : ∀ u v, w ++ rest = u ++ v → u.length < w.length → d.closes (before ++ u) v = false) :
    ∃ m', m.run (w ++ rest) = m'.run rest ∧ Sees d (before ++ w) m' ∧ m'.pending = [] ∧
      Carries m w m' := by
  induction w generalizing m before with
  | nil => exact ⟨m, rfl, by rwa [List.append_nil], hp, .refl m⟩
  | cons b w ih =>
    have hb : b ≠ Byte.cr := (List.ne_of_not_mem_cons hcr).symm
    have hstay := hopen [] (b :: w ++ rest) rfl (Nat.succ_pos _)
    rw [List.append_nil] at hstay
    obtain ⟨r, hread, hsees⟩ := read_inside hm hstay
    obtain ⟨hrun, hone⟩ := run_one hb hread rfl rfl rfl
    obtain ⟨m', hrun', hm', hpending, hcarries⟩ :=
      ih hsees hp (List.not_mem_of_not_mem_cons hcr) fun u v huv hu => by
        rw [List.append_assoc]
        exact hopen (b :: u) v (congrArg (b :: ·) huv) (Nat.succ_lt_succ hu)
    rw [List.append_assoc] at hm'
    exact ⟨m', hrun.trans hrun', hm', hpending, hone.trans hcarries⟩

/-- The opener leads into the construct. -/
theorem run_opener (hm : m.mode = .regular) (hp : m.pending = []) (d : Delimiter)
    (body : List UInt8) :
    ∃ m' : Machine, m.run (d.opener ++ body) = m'.run body ∧ Sees d [] m' ∧ m'.pending = [] ∧
      m'.finished = m.finished ∧ m'.opened = m.opened.record d.mode ∧
      m'.openedAt = m.nextNumber ∧ m'.nextNumber = m.nextNumber := by
  obtain ⟨b, rest, hs⟩ := List.exists_cons_of_ne_nil
    (List.append_ne_nil_of_left_ne_nil d.opener_ne_nil body)
  have hread : m.read b rest.head? = ⟨(m.startOn b).enter d.mode, b, d.opener.length == 2⟩ := by
    have hempty : (m.startOn b).pending = [] := hp
    rw [read_regular hm, regular_opener d _ body hs, flush_of_pending_eq_nil hempty]
  have hnumber := settled_nextNumber m b rest.head?
  rw [hread] at hnumber
  have hb : b ≠ Byte.cr ∧ b ≠ Byte.lf ∧ b ≠ 0x5C ∧
      (if d.opener.length == 2 then rest.tail else rest) = body := by
    cases d <;> obtain ⟨rfl, rfl⟩ := List.cons.inj hs <;>
      exact ⟨by decide, by decide, by decide, rfl⟩
  obtain ⟨hcr, hlf, hslash, hbody⟩ := hb
  refine ⟨{ (m.startOn b).enter d.mode with previous? := some b }, ?_, ⟨rfl, fun _ => ?_⟩, hp,
    rfl, rfl, startOn_number m b, ?_⟩
  · rw [hs, run_byte hcr, hread, hbody]
    rfl
  · simp [hslash, trailingBackslashes]
  · refine hnumber.trans ?_
    simp [hlf]

/-- The closer leads out of the construct; that of a character literal is kept. -/
theorem run_closer (hm : Sees d before m) (hp : m.pending = [])
    (hclose : d.closes before (d.closer ++ rest) = true) :
    ∃ m', m.run (d.closer ++ rest) = m'.run rest ∧ m'.mode = .regular ∧ Carries m d.closer m' ∧
      (d ≠ .char → m'.pending = []) ∧
      (d = .char → m'.pending = [0x27] ∧ m'.pendingLine = m.nextNumber) := by
  obtain ⟨b, tail, hs⟩ := List.exists_cons_of_ne_nil
    (List.append_ne_nil_of_left_ne_nil d.closer_ne_nil rest)
  rw [hs] at hclose ⊢
  have hread := read_closer hm hclose
  have hnumber := settled_nextNumber m b tail.head?
  rw [hread] at hnumber
  have hb : b ≠ Byte.cr ∧ (if d.closer.length == 2 then tail.tail else tail) = rest ∧
      d.closer.count Byte.lf = [b].count Byte.lf := by
    cases d <;> obtain ⟨rfl, rfl⟩ := List.cons.inj hs <;> exact ⟨by decide, rfl, rfl⟩
  obtain ⟨hcr, hrest, hlf⟩ := hb
  refine ⟨{ (m.startOn b).behind d with previous? := some b }, ?_, ?_, ⟨?_, ?_, ?_, ?_⟩, ?_, ?_⟩
  · rw [run_byte hcr, hread, hrest]
    rfl
  · cases d <;> rfl
  · cases d <;> rfl
  · cases d <;> rfl
  · cases d <;> rfl
  · rw [hlf]
    exact hnumber
  · intro hd
    cases d <;> first | exact hp | exact absurd rfl hd
  · rintro rfl
    exact ⟨congrArg (0x27 :: ·) hp, push_pendingLine hp b 0x27⟩

/-! ## Pieces -/

/-- Reading `s`, the machine takes in the piece `p` and goes on with `rest` as `m'`, outside
every construct if anything is left. -/
structure Takes (m : Machine) (s : List UInt8) (p : Piece) (rest : List UInt8) (m' : Machine) :
    Prop where
  run : (m.run s).flush.progress = (m'.run rest).flush.progress
  mode : rest ≠ [] → m'.mode = .regular
  pending : m'.pending = []
  progress : m'.progress = m.progress.add p

theorem takes_blank (hm : m.mode = .regular) (hp : m.pending = []) (hb : b ≠ Byte.cr)
    (hblank : Byte.isBlank b = true) :
    ∃ m', Takes m (b :: rest) { skipped := [b] } rest m' := by
  have hempty : (m.startOn b).pending = [] := hp
  have hread : m.read b rest.head? = ⟨m.startOn b, b, false⟩ := by
    rw [read_regular hm, regular_blank hblank, flush_of_pending_eq_nil hempty]
  obtain ⟨hrun, hone⟩ := run_one hb hread rfl rfl rfl
  have hmode : { m.startOn b with previous? := some b }.mode = .regular := hm
  refine ⟨_, by rw [hrun], fun _ => hmode, hp, ?_⟩
  ext1
  · exact hone.number
  · exact hone.finished
  · exact hone.opened
  · exact unterminated_eq_none (by rw [hmode]; rfl)

theorem takes_symbol (hm : m.mode = .regular) (hp : m.pending = []) (hb : b ≠ Byte.cr)
    (hopen : Delimiter.opening? (b :: rest) = none)
    (hclass : (Byte.isDigit b || Byte.isWord b || Byte.isBlank b) = false) :
    ∃ m', Takes m (b :: rest) { lexeme := [b] } rest m' := by
  have hempty : (m.startOn b).pending = [] := hp
  have hread : m.read b rest.head? = ⟨((m.startOn b).push b).flush, b, false⟩ := by
    rw [read_regular hm, regular_symbol hopen hclass, flush_of_pending_eq_nil hempty]
  have hnumber := settled_nextNumber m b rest.head?
  rw [hread] at hnumber
  have hmode : ((m.startOn b).push b).flush.mode = .regular := (flush_mode _).trans hm
  refine ⟨{ ((m.startOn b).push b).flush with previous? := some b }, ?_, fun _ => hmode,
    flush_pending _, ?_⟩
  · rw [run_byte hb, hread]
    rfl
  · ext1
    · exact hnumber
    · have hlexeme := push_lexeme hp b []
      rw [List.append_nil] at hlexeme
      refine (flush_finished (List.cons_ne_nil _ _)).trans ?_
      rw [Progress.add_finished_of_skipped (List.cons_ne_nil _ _) rfl, hlexeme]
      rfl
    · exact flush_opened _
    · exact unterminated_eq_none (by rw [hmode]; rfl)

theorem takes_word (hm : m.mode = .regular) (hp : m.pending = []) (hcr : Byte.cr ∉ b :: rest)
    (hword : Byte.isWord b = true) :
    ∃ m', Takes m (b :: rest) { lexeme := b :: rest.takeWhile Byte.isWord }
      (rest.dropWhile Byte.isWord) m' := by
  have hb : b ≠ Byte.cr := (List.ne_of_not_mem_cons hcr).symm
  have hread : m.read b rest.head? = ⟨(m.startOn b).push b, b, false⟩ := by
    rw [read_regular hm, regular_word hword]
  obtain ⟨hrun, hone⟩ := run_one hb hread rfl rfl rfl
  obtain ⟨m', hrun', hmode, hpending, hopened, hnumber, hfinished⟩ :=
    run_takeWhile (m := { (m.startOn b).push b with previous? := some b }) hm
      (List.cons_ne_nil _ _) (List.not_mem_of_not_mem_cons hcr)
  refine ⟨m', by rw [hrun, hrun'], fun _ => hmode, hpending, ?_⟩
  ext1
  · refine hnumber.trans (hone.number.trans ?_)
    have hcount : (b :: rest.takeWhile Byte.isWord).count Byte.lf = [b].count Byte.lf := by
      rw [← List.singleton_append, List.count_append, count_lf_takeWhile_isWord, Nat.add_zero]
    rw [← hcount]
    rfl
  · rw [Progress.add_finished_of_skipped (List.cons_ne_nil _ _) rfl]
    exact hfinished.trans (congrArg (· :: m.finished) (push_lexeme hp b _))
  · exact hopened
  · exact unterminated_eq_none (by rw [hmode]; rfl)

theorem takes_number (hm : m.mode = .regular) (hp : m.pending = []) (hcr : Byte.cr ∉ b :: rest)
    (hdigit : Byte.isDigit b = true) :
    ∃ m', Takes m (b :: rest) { mode := .inNumber, lexeme := b :: numberRun b rest }
      (rest.drop (numberRun b rest).length) m' := by
  have hb : b ≠ Byte.cr := (List.ne_of_not_mem_cons hcr).symm
  have hempty : (m.startOn b).pending = [] := hp
  have hread : m.read b rest.head? =
      ⟨{ (m.startOn b).push b with mode := .inNumber }, b, false⟩ := by
    rw [read_regular hm, regular_digit hdigit, flush_of_pending_eq_nil hempty]
    rfl
  obtain ⟨hrun, hone⟩ := run_one hb hread rfl rfl rfl
  obtain ⟨m', hrun', hmode, hpending, hopened, hnumber, hfinished⟩ := run_numberRun
    (m := { (m.startOn b).push b with mode := .inNumber, previous? := some b }) rfl rfl
      (List.cons_ne_nil _ _) (List.not_mem_of_not_mem_cons hcr)
  refine ⟨m', by rw [hrun, hrun'], fun _ => hmode, hpending, ?_⟩
  ext1
  · refine hnumber.trans ?_
    rw [hone.number, UInt32.add_assoc, ← UInt32.ofNat_add, ← List.count_append]
    rfl
  · rw [Progress.add_finished_of_skipped (List.cons_ne_nil _ _) rfl]
    exact hfinished.trans (congrArg (· :: m.finished) (push_lexeme hp b _))
  · exact hopened
  · exact unterminated_eq_none (by rw [hmode]; rfl)

theorem takes_unclosed (hm : m.mode = .regular) (hp : m.pending = []) {body : List UInt8}
    (hcr : Byte.cr ∉ body) (hclose : d.close? [] body = none) :
    ∃ m', Takes m (d.opener ++ body) ⟨d.mode, d.opener ++ body, [], !d.mode.swallowsInput⟩ []
      m' := by
  obtain ⟨m₁, hrun₁, hsees₁, hp₁, hfinished₁, hopened₁, hopenedAt₁, hnumber₁⟩ :=
    run_opener hm hp d body
  obtain ⟨m₂, hrun₂, hsees₂, hp₂, hcarries⟩ := run_inside [] hsees₁ hp₁ hcr
    fun u v huv _ => Delimiter.close?_eq_none_iff.1 hclose u v (by rw [← huv, List.append_nil])
  rw [List.append_nil] at hrun₂
  refine ⟨m₂, by rw [hrun₁, hrun₂], fun h => absurd rfl h, hp₂, ?_⟩
  ext1
  · refine hcarries.number.trans ?_
    show _ = m.nextNumber + UInt32.ofNat ((d.opener ++ body ++ []).count Byte.lf)
    rw [hnumber₁, List.append_nil, List.count_append, d.count_opener, Nat.zero_add]
  · exact hcarries.finished.trans hfinished₁
  · exact hcarries.opened.trans hopened₁
  · show m₂.unterminated? = if !d.mode.swallowsInput then none else some ⟨d.mode, m.nextNumber⟩
    rw [unterminated?, hsees₂.mode, hcarries.openedAt, hopenedAt₁]
    cases d.mode.swallowsInput <;> rfl

/-- A closed construct is gone through up to the bytes behind its closer. -/
theorem run_closed (hm : m.mode = .regular) (hp : m.pending = []) {inner : List UInt8}
    (hcr : Byte.cr ∉ inner) (hend : d.closes inner (d.closer ++ rest) = true)
    (hfirst : ∀ u v, inner ++ d.closer ++ rest = u ++ v → u.length < inner.length →
      d.closes u v = false) :
    ∃ m' : Machine, m.run (d.opener ++ (inner ++ d.closer ++ rest)) = m'.run rest ∧
      m'.mode = .regular ∧ m'.finished = m.finished ∧ m'.opened = m.opened.record d.mode ∧
      m'.nextNumber = m.nextNumber +
        UInt32.ofNat ((d.opener ++ inner ++ d.closer).count Byte.lf) ∧
      (d ≠ .char → m'.pending = []) ∧ (d = .char → m'.pending = [0x27] ∧ m'.pendingLine =
        m.nextNumber + UInt32.ofNat ((d.opener ++ inner).count Byte.lf)) := by
  obtain ⟨m₁, hrun₁, hsees₁, hp₁, hfinished₁, hopened₁, -, hnumber₁⟩ :=
    run_opener hm hp d (inner ++ d.closer ++ rest)
  obtain ⟨m₂, hrun₂, hsees₂, hp₂, hcarries₂⟩ :=
    run_inside (d.closer ++ rest) hsees₁ hp₁ hcr
      fun u v huv hu => hfirst u v (by rw [← huv, List.append_assoc]) hu
  obtain ⟨m₃, hrun₃, hmode, hcarries₃, hpending, hchar⟩ := run_closer hsees₂ hp₂ hend
  have hcarries := hcarries₂.trans hcarries₃
  refine ⟨m₃, ?_, hmode, hcarries.finished.trans hfinished₁, hcarries.opened.trans hopened₁, ?_,
    hpending, fun hd => ⟨(hchar hd).1, ?_⟩⟩
  · rw [hrun₁, List.append_assoc, hrun₂, hrun₃]
  · have hcount : (d.opener ++ (inner ++ d.closer)).count Byte.lf =
        (inner ++ d.closer).count Byte.lf := by
      rw [List.count_append, d.count_opener, Nat.zero_add]
    rw [hcarries.number, hnumber₁, List.append_assoc, hcount]
  · rw [(hchar hd).2, hcarries₂.number, hnumber₁, List.count_append, d.count_opener, Nat.zero_add]

theorem takes_closed (hm : m.mode = .regular) (hp : m.pending = []) {inner : List UInt8}
    (hcr : Byte.cr ∉ inner) (hd : d ≠ .char) (hend : d.closes inner (d.closer ++ rest) = true)
    (hfirst : ∀ u v, inner ++ d.closer ++ rest = u ++ v → u.length < inner.length →
      d.closes u v = false) :
    ∃ m', Takes m (d.opener ++ (inner ++ d.closer ++ rest))
      ⟨d.mode, d.opener ++ inner ++ d.closer, [], true⟩ rest m' := by
  obtain ⟨m', hrun, hmode, hfinished, hopened, hnumber, hpending, -⟩ :=
    run_closed hm hp hcr hend hfirst
  refine ⟨m', by rw [hrun], fun _ => hmode, hpending hd, ?_⟩
  ext1
  · refine hnumber.trans ?_
    show _ = m.nextNumber + UInt32.ofNat ((d.opener ++ inner ++ d.closer ++ []).count Byte.lf)
    rw [List.append_nil]
  · exact hfinished
  · exact hopened
  · exact unterminated_eq_none (by rw [hmode]; rfl)

theorem takes_char (hm : m.mode = .regular) (hp : m.pending = []) {inner : List UInt8}
    (hcr : Byte.cr ∉ inner ++ Delimiter.char.closer ++ rest)
    (hend : Delimiter.char.closes inner (Delimiter.char.closer ++ rest) = true)
    (hfirst : ∀ u v, inner ++ Delimiter.char.closer ++ rest = u ++ v → u.length < inner.length →
      Delimiter.char.closes u v = false) :
    ∃ m', Takes m (Delimiter.char.opener ++ (inner ++ Delimiter.char.closer ++ rest))
      ⟨.inChar, Delimiter.char.opener ++ inner,
        Delimiter.char.closer ++ rest.takeWhile Byte.isWord, true⟩
      (rest.dropWhile Byte.isWord) m' := by
  simp only [List.mem_append, not_or] at hcr
  obtain ⟨m₁, hrun₁, hmode₁, hfinished₁, hopened₁, hnumber₁, -, hchar⟩ :=
    run_closed hm hp hcr.1.1 hend hfirst
  obtain ⟨hpending₁, hpendingLine⟩ := hchar rfl
  obtain ⟨m₂, hrun₂, hmode, hpending, hopened, hnumber, hfinished⟩ :=
    run_takeWhile hmode₁ (by rw [hpending₁]; exact List.cons_ne_nil _ _) hcr.2
  refine ⟨m₂, by rw [hrun₁, hrun₂], fun _ => hmode, hpending, ?_⟩
  ext1
  · rw [Progress.add, Piece.bytes, ← List.append_assoc, List.count_append,
      count_lf_takeWhile_isWord, Nat.add_zero]
    exact hnumber.trans hnumber₁
  · rw [Progress.add_finished (List.append_ne_nil_of_left_ne_nil (List.cons_ne_nil _ _) _)]
    rw [hpending₁, hpendingLine, hfinished₁] at hfinished
    exact hfinished
  · exact hopened.trans hopened₁
  · exact unterminated_eq_none (by rw [hmode]; rfl)

/-- The machine takes in the front piece of what it reads. -/
theorem takes_front (hm : m.mode = .regular) (hp : m.pending = []) (hcr : Byte.cr ∉ b :: rest) :
    ∃ m', Takes m (b :: rest) (Piece.front b rest).1 (Piece.front b rest).2 m' := by
  have hb : b ≠ Byte.cr := (List.ne_of_not_mem_cons hcr).symm
  have hspec := Piece.front_spec b rest
  generalize (Piece.front b rest).1 = p, (Piece.front b rest).2 = behind at hspec ⊢
  cases hspec with
  | unclosed hs hclose =>
    rw [hs] at hcr ⊢
    exact takes_unclosed hm hp (fun h => hcr (List.mem_append_right _ h)) hclose
  | closed hd hs hclose =>
    obtain ⟨-, hend, hfirst⟩ := Delimiter.close?_eq_some_iff.1 hclose
    rw [hs] at hcr ⊢
    exact takes_closed hm hp (fun h => hcr (by simp [h])) hd hend hfirst
  | char hs hclose =>
    obtain ⟨-, hend, hfirst⟩ := Delimiter.close?_eq_some_iff.1 hclose
    rw [hs] at hcr ⊢
    exact takes_char hm hp (fun h => hcr (List.mem_append_right _ h)) hend hfirst
  | number hdigit => exact takes_number hm hp hcr hdigit
  | word hword => exact takes_word hm hp hcr hword
  | blank hblank => exact takes_blank hm hp hb hblank
  | symbol hopen hclass => exact takes_symbol hm hp hb hopen hclass

/-- A run over a normalized source adds up its pieces. -/
theorem progress_run (hm : m.mode = .regular) (hp : m.pending = []) (hcr : Byte.cr ∉ s) :
    (m.run s).flush.progress = (pieces s).foldl Progress.add m.progress := by
  fun_induction pieces s generalizing m with
  | case1 => rw [run, flush_of_pending_eq_nil hp, List.foldl_nil]
  | case2 b rest ih =>
    obtain ⟨m', htakes⟩ := takes_front hm hp hcr
    rw [htakes.run, List.foldl_cons, ← htakes.progress]
    cases hrest : (Piece.front b rest).2 with
    | nil => rw [run, flush_of_pending_eq_nil htakes.pending, pieces, List.foldl_nil]
    | cons c rest' =>
      rw [← hrest]
      refine ih (htakes.mode (by simp [hrest])) htakes.pending fun h => hcr ?_
      rw [← Piece.bytes_front b rest]
      exact List.mem_append_right _ h

end Machine

end ScalaLex
