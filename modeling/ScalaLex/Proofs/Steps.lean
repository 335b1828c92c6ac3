import ScalaLex.Proofs.LineEnds
import ScalaLex.Scan.Machine

/-!
# Steps of the machine

One pass through the loop of `Machine.run` is `Machine.advance` : it takes the machine and
what is left of the source to the machine after the next byte and what is left then
(`run_cons`). The states a run passes through are those that `advance` leads to from the
start (`Reaches`), and the run ends in one of them (`Reaches.run`).

What a step does to the line number is the same in every mode : dispatching a byte leaves
the line alone, and remembers a line feed exactly where it dispatched one. So the number is
that of the line of the byte last read, and it moves on as the next byte is read
(`OnLine`).
-/

namespace ScalaLex

namespace Machine

/-- The machine after a byte was read, with the byte that follows it in the source : the
byte is put on its line and dispatched. -/
def read (m : Machine) (b : UInt8) (next? : Option UInt8) : Step :=
  { m.startByte with line := m.startByte.line.track b }.dispatch b next?

/-- The machine that goes on after a step. -/
def Step.settled (s : Step) : Machine := { s.machine with previous? := some s.remembered }

/-- One pass through the loop over the bytes of a source. -/
def advance (m : Machine) (raw : UInt8) (rest : List UInt8) : Machine × List UInt8 :=
  if opensPair raw rest then ({ m.startByte with previous? := some Byte.cr }, rest)
  else
    let step := m.read (if raw == Byte.cr then Byte.lf else raw) rest.head?
    (step.settled, if step.two then rest.tail else rest)

/-- The states of a run over a source, with what is left of the source. -/
inductive Reaches (source : List UInt8) : Machine → List UInt8 → Prop
  | start : Reaches source {} source
  | step {m : Machine} {raw : UInt8} {rest : List UInt8} : Reaches source m (raw :: rest) →
      Reaches source (m.advance raw rest).1 (m.advance raw rest).2

variable {source rest : List UInt8} {m : Machine} {raw b : UInt8} {next? : Option UInt8}

theorem advance_pair (m : Machine) (h : opensPair raw rest = true) :
    m.advance raw rest = ({ m.startByte with previous? := some Byte.cr }, rest) := by
  rw [advance, if_pos h]

theorem advance_cons (m : Machine) (h : opensPair raw rest = false) :
    m.advance raw rest = ((m.read (if raw == Byte.cr then Byte.lf else raw) rest.head?).settled,
      if (m.read (if raw == Byte.cr then Byte.lf else raw) rest.head?).two then rest.tail
      else rest) := by
  rw [advance, h]
  rfl

/-- A run is one pass through the loop and the run from there on. -/
theorem run_cons (m : Machine) (raw : UInt8) (rest : List UInt8) :
    m.run (raw :: rest) = (m.advance raw rest).1.run (m.advance raw rest).2 := by
  cases h : opensPair raw rest with
  | true =>
    rw [advance_pair m h, run, ← opensPair, h]
    rfl
  | false =>
    rw [advance_cons m h, run, ← opensPair, h]
    cases htwo : (m.read (if raw == Byte.cr then Byte.lf else raw) rest.head?).two with
    | true =>
      rw [read] at htwo
      dsimp only
      rw [htwo]
      cases rest <;> rfl
    | false =>
      rw [read] at htwo
      dsimp only
      rw [htwo]
      rfl

/-! ## Dispatching -/

theorem flush_line (m : Machine) : m.flush.line = m.line := by
  unfold flush
  split <;> rfl

theorem regular_line (m : Machine) (b : UInt8) (next? : Option UInt8) :
    (m.regular b next?).machine.line = m.line := by
  unfold regular
  repeat' split
  all_goals simp [enter, push, flush_line]

/-- A dispatched byte leaves the line alone. -/
theorem dispatch_line (m : Machine) (b : UInt8) (next? : Option UInt8) :
    (m.dispatch b next?).machine.line = m.line := by
  unfold dispatch quoted
  repeat' split
  all_goals simp [push, regular_line, flush_line]

theorem regular_remembered (m : Machine) (b : UInt8) (next? : Option UInt8) :
    (m.regular b next?).remembered = b := by
  unfold regular
  repeat' split
  all_goals rfl

/-- A backslash can be remembered as a space, and every other byte as it is. -/
theorem dispatch_remembered (m : Machine) (b : UInt8) (next? : Option UInt8) :
    (m.dispatch b next?).remembered = b ∨
      b = 0x5C ∧ (m.dispatch b next?).remembered = 0x20 := by
  unfold dispatch quoted
  repeat' split
  all_goals simp_all [regular_remembered]

theorem dispatch_remembered_eq_lf (m : Machine) (b : UInt8) (next? : Option UInt8) :
    (m.dispatch b next?).remembered = Byte.lf ↔ b = Byte.lf := by
  rcases m.dispatch_remembered b next? with h | ⟨rfl, h⟩
  · rw [h]
  · rw [h]
    decide

theorem regular_two (h : (m.regular b next?).two = true) :
    b = 0x2F ∧ (next? = some 0x2A ∨ next? = some 0x2F) := by
  unfold regular at h
  repeat' split at h
  all_goals simp_all

/-- Two bytes are taken at once only where they open or close a comment. -/
theorem dispatch_two (h : (m.dispatch b next?).two = true) :
    (b = 0x2A ∨ b = 0x2F) ∧ (next? = some 0x2A ∨ next? = some 0x2F) := by
  unfold dispatch quoted at h
  repeat' split at h
  all_goals first
    | exact ⟨Or.inr (regular_two h).1, (regular_two h).2⟩
    | simp_all

/-! ## The line number -/

/-- The number of the line that the next byte is on. -/
def nextNumber (m : Machine) : UInt32 := m.startByte.line.number

theorem nextNumber_eq (m : Machine) : m.nextNumber =
    if m.previous? = some Byte.lf then m.line.number + 1 else m.line.number := by
  unfold nextNumber startByte
  by_cases h : m.previous? = some Byte.lf
  · simp [h, Line.next]
  · simp [h]

theorem nextNumber_congr {m' : Machine} (hprevious : m.previous? = m'.previous?)
    (hline : m.line = m'.line) : m.nextNumber = m'.nextNumber := by
  rw [nextNumber_eq, nextNumber_eq, hprevious, hline]

theorem track_number (l : Line) (b : UInt8) : (l.track b).number = l.number := by
  unfold Line.track
  split <;> rfl

theorem read_number (m : Machine) (b : UInt8) (next? : Option UInt8) :
    (m.read b next?).settled.line.number = m.nextNumber := by
  rw [read, Step.settled, dispatch_line, track_number, nextNumber]

/-- After `offset` bytes the machine has the number of the line of the last of them, and
remembers whether that byte ends its line. -/
structure OnLine (source : List UInt8) (offset : Nat) (m : Machine) : Prop where
  number : m.line.number = UInt32.ofNat (lineAt source (offset - 1))
  previous : m.previous? = some Byte.lf ↔ 0 < offset ∧ endsLineAt source (offset - 1) = true

variable {offset : Nat}

theorem OnLine.nextNumber (h : OnLine source offset m) :
    m.nextNumber = UInt32.ofNat (lineAt source offset) := by
  rw [nextNumber_eq, h.number]
  cases offset with
  | zero => simp [h.previous]
  | succ n =>
    simp only [h.previous, Nat.add_sub_cancel, lineAt, lineEndsBefore_succ]
    cases endsLineAt source n <;> simp [← Nat.add_assoc]

theorem onLine_start (source : List UInt8) : OnLine source 0 {} where
  number := by simp [lineAt, lineEndsBefore_zero]
  previous := by simp

/-- Every step leads from a line number that is right to one that is. -/
theorem OnLine.advance (h : OnLine source offset m) (hs : source.drop offset = raw :: rest) :
    ∃ offset', (m.advance raw rest).2 = source.drop offset' ∧ offset' ≤ source.length ∧
      OnLine source offset' (m.advance raw rest).1 := by
  have hraw : source[offset]? = some raw := by
    rw [← List.head?_drop, hs, List.head?_cons]
  have hlt : offset < source.length := (List.getElem?_eq_some_iff.1 hraw).1
  have hrest : source.drop (offset + 1) = rest := by
    rw [← List.drop_drop, hs, List.drop_one, List.tail_cons]
  have hnext : source[offset + 1]? = rest.head? := by
    rw [← List.head?_drop, hrest]
  have hends : endsLineAt source offset =
      (raw == Byte.lf || (raw == Byte.cr && rest.head? != some Byte.lf)) := by
    rw [endsLineAt, hraw, hnext]
    rfl
  cases hpair : opensPair raw rest with
  | true =>
    obtain ⟨rfl, hlf⟩ := opensPair_iff.1 hpair
    rw [hlf] at hends
    rw [advance_pair m hpair]
    refine ⟨offset + 1, hrest.symm, hlt, h.nextNumber, ?_⟩
    simp [hends, show (Byte.cr == Byte.lf) = false from rfl]
    decide
  | false =>
    rw [advance_cons m hpair]
    generalize hb : (if raw == Byte.cr then Byte.lf else raw) = b
    have hlf : endsLineAt source offset = true ↔ b = Byte.lf := by
      rw [hends, ← hb]
      by_cases hcr : raw = Byte.cr
      · have hne : (rest.head? == some Byte.lf) = false := by simpa [opensPair, hcr] using hpair
        simp [hcr, hne, bne]
      · simp [hcr]
    have hnumber := read_number m b rest.head?
    rw [h.nextNumber] at hnumber
    cases htwo : (m.read b rest.head?).two with
    | false =>
      refine ⟨offset + 1, hrest.symm, hlt, hnumber, ?_⟩
      rw [Nat.add_sub_cancel, hlf]
      simp [Step.settled, read, dispatch_remembered_eq_lf]
    | true =>
      obtain ⟨hopen, hclose⟩ := dispatch_two htwo
      have hbne : b ≠ Byte.lf := by rcases hopen with rfl | rfl <;> decide
      have hsecond : endsLineAt source (offset + 1) = false ∧ offset + 1 < source.length := by
        rw [endsLineAt, hnext]
        rcases hclose with h | h <;> rw [h] at hnext ⊢ <;>
          exact ⟨rfl, (List.getElem?_eq_some_iff.1 hnext).1⟩
      have hfirst : endsLineAt source offset = false := by
        rw [← Bool.not_eq_true, hlf]
        exact hbne
      refine ⟨offset + 2, ?_, hsecond.2, ?_, ?_⟩
      · rw [if_pos rfl, ← hrest, List.tail_drop]
      · rw [hnumber, Nat.add_succ_sub_one, lineAt, lineAt, lineEndsBefore_succ, hfirst]
        rfl
      · rw [Nat.add_succ_sub_one, hsecond.1]
        simp [Step.settled, read, dispatch_remembered_eq_lf, hbne]

/-! ## Reached states -/

theorem Reaches.onLine (h : Reaches source m rest) :
    ∃ offset, rest = source.drop offset ∧ offset ≤ source.length ∧ OnLine source offset m := by
  induction h with
  | start => exact ⟨0, rfl, Nat.zero_le _, onLine_start source⟩
  | step _ ih =>
    obtain ⟨offset, hs, -, hline⟩ := ih
    exact hline.advance hs.symm

theorem length_advance_le (m : Machine) (raw : UInt8) (rest : List UInt8) :
    (m.advance raw rest).2.length ≤ rest.length := by
  cases h : opensPair raw rest with
  | true => exact Nat.le_of_eq (by rw [advance_pair m h])
  | false =>
    rw [advance_cons m h]
    cases (m.read (if raw == Byte.cr then Byte.lf else raw) rest.head?).two with
    | true =>
      rw [if_pos rfl, List.length_tail]
      exact Nat.sub_le _ _
    | false => exact Nat.le_refl _

/-- A run ends in a state that it reaches. -/
theorem Reaches.run {m : Machine} {rest : List UInt8} (h : Reaches source m rest) :
    Reaches source (m.run rest) [] := by
  match rest with
  | [] => exact h
  | raw :: rest =>
    rw [run_cons]
    exact h.step.run
termination_by rest.length
decreasing_by exact Nat.lt_succ_of_le (length_advance_le m raw rest)

/-- A run over a whole source ends behind its last byte. -/
theorem onLine_run (source : List UInt8) :
    OnLine source source.length (({} : Machine).run source) := by
  have hreach : Reaches source (({} : Machine).run source) [] := Reaches.start.run
  obtain ⟨offset, hs, hle, hline⟩ := hreach.onLine
  have hend : offset = source.length := by
    have := List.drop_eq_nil_iff.1 hs.symm
    omega
  rwa [hend] at hline

/-- A run over a whole source ends on the line of the last byte. -/
theorem lineNumber_run (source : List UInt8) : (({} : Machine).run source).line.number =
    UInt32.ofNat (lineAt source (source.length - 1)) :=
  (onLine_run source).number

/-- The lines of a source fit the counter if its bytes and one more do. -/
theorem toNat_ofNat_lineAt (h : source.length + 1 < UInt32.size) (hle : offset ≤ source.length) :
    (UInt32.ofNat (lineAt source offset)).toNat = lineAt source offset := by
  have hbefore := lineEndsBefore_le source offset
  refine UInt32.toNat_ofNat_of_lt' ?_
  rw [lineAt]
  omega

/-- The counter never moves past the greatest number it can hold. -/
theorem Reaches.number_lt (h : Reaches source m (raw :: rest))
    (hlen : source.length + 1 < UInt32.size) (hlf : m.previous? = some Byte.lf) :
    m.line.number.toNat + 1 < UInt32.size := by
  obtain ⟨offset, hs, hle, hline⟩ := h.onLine
  have hpos := (hline.previous.1 hlf).1
  have hlt : offset < source.length := by
    rw [← Nat.not_le, ← List.drop_eq_nil_iff, ← hs]
    exact List.cons_ne_nil _ _
  have hbefore := lineEndsBefore_le source (offset - 1)
  rw [hline.number, toNat_ofNat_lineAt hlen (by omega), lineAt]
  omega

end Machine

end ScalaLex
