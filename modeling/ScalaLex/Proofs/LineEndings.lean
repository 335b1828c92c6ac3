import ScalaLex.Proofs.Steps
import ScalaLex.Scan.Scanner

/-!
# Scans do not see how lines end

A machine that reads a source and one that reads the normalized source end in the same
state (`run_normalize`). A carriage return before a line feed only moves the line number on
earlier than the line feed would, and no mode looks at the byte before a line feed
(`dispatch_lf`, `run_passedOver`). Lookahead is only compared with the second bytes of
comment delimiters, which normalizing keeps (`read_congr_next`).

So sources that differ in their line ends alone have the same tokens and figures
(`parse_eq_of_normalize_eq`).
-/

namespace ScalaLex

namespace Machine

variable {source rest : List UInt8} {raw b c : UInt8} {next? next'? : Option UInt8}

/-- What a line feed does, the byte before it being of no account. -/
def endLine (m : Machine) : Machine :=
  match m.mode with
  | .inLineComment => { m with mode := .regular }
  | .inNumber => { m.flush with mode := .regular }.flush
  | .regular => m.flush
  | .inComment | .inString | .inChar => m

theorem regular_lf (m : Machine) (next? : Option UInt8) :
    m.regular Byte.lf next? = ⟨m.flush, Byte.lf, false⟩ := rfl

theorem dispatch_lf (m : Machine) (next? : Option UInt8) :
    m.dispatch Byte.lf next? = ⟨m.endLine, Byte.lf, false⟩ := by
  obtain ⟨mode, pending, pendingLine, line, previous?, openedAt, finished, opened⟩ := m
  cases mode with
  | inNumber =>
    have hstop : continuesNumber previous? Byte.lf = false := rfl
    simp [dispatch, hstop, regular_lf, endLine]
  | regular | inString | inChar | inComment | inLineComment => rfl

theorem endLine_previous (m : Machine) (p : Option UInt8) :
    { m with previous? := p }.endLine = { m.endLine with previous? := p } := by
  obtain ⟨mode, pending, pendingLine, line, previous?, openedAt, finished, opened⟩ := m
  cases mode <;> cases pending <;> rfl

theorem opensPair_of_ne_cr (h : b ≠ Byte.cr) (rest : List UInt8) : opensPair b rest = false := by
  simp [opensPair, h]

/-- A carriage return passed over before a line feed leaves no trace behind the line feed. -/
theorem run_passedOver (m : Machine) (rest : List UInt8) :
    { m.startByte with previous? := some Byte.cr }.run (Byte.lf :: rest) =
      m.run (Byte.lf :: rest) := by
  have hlf : opensPair Byte.lf rest = false := opensPair_of_ne_cr (by decide) rest
  have hread : ({ m.startByte with previous? := some Byte.cr }.read Byte.lf rest.head?).settled =
      (m.read Byte.lf rest.head?).settled := by
    rw [read, read, dispatch_lf, dispatch_lf]
    exact congrArg (fun m' : Machine => { m' with previous? := some Byte.lf })
      (endLine_previous { m.startByte with line := m.startByte.line.track Byte.lf } (some Byte.cr))
  have hone : ∀ m' : Machine, (m'.read Byte.lf rest.head?).two = false := by
    intro m'
    rw [read, dispatch_lf]
  have hbyte : (if Byte.lf == Byte.cr then Byte.lf else Byte.lf) = Byte.lf := rfl
  rw [run_cons, run_cons, advance_cons _ hlf, advance_cons _ hlf, hbyte, hread, hone, hone]

/-! ## Lookahead -/

/-- The byte after is only compared with the second bytes of comment delimiters. -/
theorem read_congr_next (m : Machine) (b : UInt8)
    (hstar : next? = some 0x2A ↔ next'? = some 0x2A)
    (hslash : next? = some 0x2F ↔ next'? = some 0x2F) : m.read b next? = m.read b next'? := by
  have hs : (next? == some 0x2A) = (next'? == some 0x2A) := by
    rw [Bool.eq_iff_iff, beq_iff_eq, beq_iff_eq, hstar]
  have hl : (next? == some 0x2F) = (next'? == some 0x2F) := by
    rw [Bool.eq_iff_iff, beq_iff_eq, beq_iff_eq, hslash]
  simp only [read, dispatch, regular, hs, hl]

theorem head?_normalize_eq (hlf : c ≠ Byte.lf) (hcr : c ≠ Byte.cr) :
    (normalize source).head? = some c ↔ source.head? = some c := by
  cases source with
  | nil => rfl
  | cons b rest =>
    cases hpair : opensPair b rest with
    | true =>
      obtain ⟨rfl, hnext⟩ := opensPair_iff.1 hpair
      obtain ⟨rest', rfl⟩ := List.head?_eq_some_iff.1 hnext
      rw [normalize_pair hpair, normalize_cons (opensPair_of_ne_cr (by decide) rest')]
      simp [hlf.symm, hcr.symm]
    | false =>
      rw [normalize_cons hpair, List.head?_cons, List.head?_cons]
      by_cases h : b = Byte.cr
      · simp [h, hlf.symm, hcr.symm]
      · simp [h]

/-! ## Whole runs -/

/-- Reading a source is reading it normalized. -/
theorem run_normalize (m : Machine) (source : List UInt8) :
    m.run (normalize source) = m.run source := by
  match source with
  | [] => rfl
  | raw :: rest =>
    cases hpair : opensPair raw rest with
    | true =>
      obtain ⟨-, hnext⟩ := opensPair_iff.1 hpair
      obtain ⟨rest', rfl⟩ := List.head?_eq_some_iff.1 hnext
      have hlf : normalize (Byte.lf :: rest') = Byte.lf :: normalize rest' :=
        normalize_cons (opensPair_of_ne_cr (by decide) rest')
      have hrest :
          { m.startByte with previous? := some Byte.cr }.run (normalize (Byte.lf :: rest')) =
            { m.startByte with previous? := some Byte.cr }.run (Byte.lf :: rest') :=
        run_normalize _ _
      rw [normalize_pair hpair, run_cons m raw, advance_pair m hpair, ← hrest, hlf, run_passedOver]
    | false =>
      have hb : (if raw == Byte.cr then Byte.lf else raw) ≠ Byte.cr := by
        split
        · decide
        · rename_i hraw
          simpa using hraw
      rw [run_cons m raw, advance_cons m hpair, normalize_cons hpair, run_cons,
        advance_cons m (opensPair_of_ne_cr hb _)]
      generalize (if raw == Byte.cr then Byte.lf else raw) = b at hb ⊢
      have hself : (if b == Byte.cr then Byte.lf else b) = b := by simp [hb]
      have hread : m.read b (normalize rest).head? = m.read b rest.head? :=
        read_congr_next m b (head?_normalize_eq (by decide) (by decide))
          (head?_normalize_eq (by decide) (by decide))
      rw [hself, hread]
      cases htwo : (m.read b rest.head?).two with
      | false => exact run_normalize _ rest
      | true =>
        obtain ⟨c, hc, hlf, hcr⟩ : ∃ c, rest.head? = some c ∧ c ≠ Byte.lf ∧ c ≠ Byte.cr := by
          rcases (dispatch_two htwo).2 with h | h
          · exact ⟨0x2A, h, by decide, by decide⟩
          · exact ⟨0x2F, h, by decide, by decide⟩
        obtain ⟨rest', rfl⟩ := List.head?_eq_some_iff.1 hc
        rw [normalize_cons (opensPair_of_ne_cr hcr rest'), if_pos rfl, if_pos rfl, List.tail_cons,
          List.tail_cons]
        exact run_normalize _ rest'
termination_by source.length

theorem scan_normalize (source : List UInt8) : scan (normalize source) = scan source := by
  rw [scan, scan, run_normalize]

end Machine

/-- Two sources that read the same with every line end written as a line feed have the same
tokens and the same figures but for their size and the time taken. -/
theorem parse_eq_of_normalize_eq (s s' : Scanner) (elapsed elapsed' : Span) {a b : List UInt8}
    (hprefs : s.preferences = s'.preferences) (h : normalize a = normalize b) :
    (s.parse elapsed a).value.last.tokens = (s'.parse elapsed' b).value.last.tokens ∧
      { (s.parse elapsed a).value.last.metrics with bytesScanned := 0, elapsed := {} } =
        { (s'.parse elapsed' b).value.last.metrics with bytesScanned := 0, elapsed := {} } := by
  have hscan : Machine.scan a = Machine.scan b := by
    rw [← Machine.scan_normalize a, h, Machine.scan_normalize]
  rw [Scanner.last_parse, Scanner.last_parse, Scan.ofSource, Scan.ofSource, Scan.ofMachine,
    Scan.ofMachine, hscan, hprefs]
  exact ⟨rfl, rfl⟩

/-- A line feed after a lone carriage return, and a pair cut in two by another. -/
theorem parse_eq_of_normalize_eq_mixed :
    normalize [0x22, 0x5C, 0x0D, 0x0D, 0x0A, 0x31, 0x65, 0x0D] =
      normalize [0x22, 0x5C, 0x0A, 0x0D, 0x31, 0x65, 0x0D, 0x0A] ∧
    tokenize [0x22, 0x5C, 0x0D, 0x0D, 0x0A, 0x31, 0x65, 0x0D] =
      tokenize [0x22, 0x5C, 0x0A, 0x0D, 0x31, 0x65, 0x0D, 0x0A] :=
  ⟨by decide, (parse_eq_of_normalize_eq {} {} {} {} rfl (by decide)).1⟩

end ScalaLex
