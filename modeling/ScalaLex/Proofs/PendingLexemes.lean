import Mathlib.Data.List.Chain
import Mathlib.Logic.Function.Iterate
import ScalaLex.Proofs.Dispatch

/-!
# What is pending between two bytes

What is pending has one of a few forms, which the mode tells (`Machine.CanPend`). What a byte can do
to it is said once, for all modes (`Machine.Gathers`) : nothing is pending behind the byte, or the
byte begins a lexeme, or it goes on with the one that is pending. In the last two cases it is taken
alone and as it stands in the source, so the pending bytes are the last ones that were read, and the
line on which they begin is that of their place (`Machine.Pends`).

The loop over a source keeps the offset of the next byte beside the machine (`Cursor`). One pass
through it is `Cursor.next`, which is `Machine.advance` on what is left of the source
(`Cursor.advance_next`), and it ends as the machine that `Machine.run` gives
(`Cursor.after_of_length_le`). What holds behind one pass then holds behind any number of them
(`Cursor.pending_after`).
-/

namespace ScalaLex

variable {source rest lexeme : List UInt8} {b raw : UInt8} {previous? : Option UInt8} {i n : Nat}
  {mode : Mode}

/-! ## Places in a source -/

/-- The offset stands between the two bytes of a line end. -/
def splitsPair (source : List UInt8) : Nat → Bool
  | 0 => false
  | i + 1 => source[i]? == some Byte.cr && source[i + 1]? == some Byte.lf

/-- The end of the bytes before an offset, without the first byte of a line end that the offset
splits. -/
def gatheredEnd (source : List UInt8) (i : Nat) : Nat := if splitsPair source i then i - 1 else i

theorem lt_length_of_drop (h : source.drop i = raw :: rest) : i < source.length := by
  rw [← Nat.not_le, ← List.drop_eq_nil_iff, h]
  exact List.cons_ne_nil _ _

theorem drop_succ_of_drop (h : source.drop i = raw :: rest) : source.drop (i + 1) = rest := by
  rw [← List.drop_drop, h, List.drop_one, List.tail_cons]

theorem getElem?_of_drop (h : source.drop i = raw :: rest) :
    source[i]? = some raw ∧ source[i + 1]? = rest.head? := by
  constructor
  · rw [← List.head?_drop, h, List.head?_cons]
  · rw [← List.head?_drop, drop_succ_of_drop h]

theorem take_succ_of_drop (h : source.drop i = raw :: rest) :
    source.take (i + 1) = source.take i ++ [raw] := by
  rw [List.take_add_one, (getElem?_of_drop h).1]
  rfl

/-- The offset behind a byte splits a line end just if this byte and the next one are one. -/
theorem splitsPair_succ (h : source.drop i = raw :: rest) :
    splitsPair source (i + 1) = opensPair raw rest := by
  obtain ⟨hraw, hnext⟩ := getElem?_of_drop h
  rw [splitsPair, hraw, hnext, opensPair]
  rfl

/-- Behind the carriage return of a line end its line feed comes. -/
theorem eq_lf_of_splitsPair (h : source.drop i = raw :: rest)
    (hsplits : splitsPair source i = true) : raw = Byte.lf := by
  cases i with
  | zero => cases hsplits
  | succ i =>
    rw [splitsPair, (getElem?_of_drop h).1] at hsplits
    simpa using (Bool.and_eq_true_iff.1 hsplits).2

/-- Where no line end is split all that was read is gathered. -/
theorem gatheredEnd_of_not (h : splitsPair source i = false) : gatheredEnd source i = i := by
  rw [gatheredEnd, h]
  rfl

namespace Machine

variable {m : Machine} {s : Step}

/-! ## Forms -/

/-- A byte that begins a lexeme, which is pending in the mode. -/
inductive Begins : Mode → UInt8 → Prop
  | word {b : UInt8} (h : Byte.isWord b = true) : Begins .regular b
  | quote : Begins .regular 0x27
  | number {b : UInt8} (h : Byte.isDigit b = true) : Begins .inNumber b

/-- A byte that goes on with the lexeme that is pending in the mode. -/
inductive GoesOn (previous? : Option UInt8) : Mode → UInt8 → Prop
  | word {b : UInt8} (h : Byte.isWord b = true) : GoesOn previous? .regular b
  | number {b : UInt8} (h : continuesNumber previous? b = true) : GoesOn previous? .inNumber b

/-- What can be pending in a mode : words and closing quotes outside the constructs, where a word
may come behind a quote, and numbers. -/
inductive CanPend : Mode → List UInt8 → Prop
  | nothing {mode : Mode} (h : mode ≠ .inNumber) : CanPend mode []
  | word {w : List UInt8} (h : ∀ c ∈ w, Byte.isWord c = true) : CanPend .regular w
  | quote {w : List UInt8} (h : ∀ c ∈ w, Byte.isWord c = true) : CanPend .regular (0x27 :: w)
  | number {b : UInt8} {w : List UInt8} (hdigit : Byte.isDigit b = true)
      (hchain : (b :: w).IsChain fun before c =>
        (Byte.isNumeric c || (Byte.isSign c && Byte.isExponent before)) = true) :
      CanPend .inNumber (b :: w)

/-- Such a byte ends no line, and is remembered as it is. -/
theorem Begins.ne (h : Begins mode b) : b ≠ Byte.lf ∧ b ≠ 0x5C := by
  cases h with
  | word h | number h => refine ⟨?_, ?_⟩ <;> rintro rfl <;> cases h
  | quote => decide

/-- No lexeme goes on with a line feed or a backslash. -/
theorem GoesOn.ne (h : GoesOn previous? mode b) : b ≠ Byte.lf ∧ b ≠ 0x5C := by
  cases h with
  | word h | number h => refine ⟨?_, ?_⟩ <;> rintro rfl <;> cases h

/-- Nothing pends inside of a construct. -/
theorem CanPend.eq_nil (h : CanPend mode lexeme) (hregular : mode ≠ .regular)
    (hnumber : mode ≠ .inNumber) : lexeme = [] := by
  cases h with
  | nothing => rfl
  | word | quote => exact absurd rfl hregular
  | number => exact absurd rfl hnumber

theorem CanPend.regular (h : CanPend .regular lexeme) : (∀ b ∈ lexeme, Byte.isWord b = true) ∨
    ∃ w, lexeme = 0x27 :: w ∧ ∀ b ∈ w, Byte.isWord b = true := by
  cases h with
  | nothing => exact Or.inl nofun
  | word hw => exact Or.inl hw
  | quote hw => exact Or.inr ⟨_, rfl, hw⟩

theorem CanPend.inNumber (h : CanPend .inNumber lexeme) :
    (∃ b w, lexeme = b :: w ∧ Byte.isDigit b = true) ∧ lexeme.IsChain fun before b =>
      (Byte.isNumeric b || (Byte.isSign b && Byte.isExponent before)) = true := by
  cases h with
  | nothing hmode => exact absurd rfl hmode
  | number hdigit hchain => exact ⟨⟨_, _, rfl, hdigit⟩, hchain⟩

/-- A byte that begins a lexeme can pend. -/
theorem Begins.canPend (h : Begins mode b) : CanPend mode [b] := by
  cases h with
  | word h => exact .word (List.forall_mem_singleton.2 h)
  | quote => exact .quote nofun
  | number h => exact .number h (.singleton b)

/-- A number goes on by its last byte, if that is the one remembered. -/
theorem CanPend.append (h : CanPend mode lexeme) (hne : lexeme ≠ [])
    (hnext : GoesOn previous? mode b) (hlast : mode = .inNumber → previous? = lexeme.getLast?) :
    CanPend mode (lexeme ++ [b]) := by
  cases hnext with
  | word hword =>
    have hall : ∀ {w : List UInt8}, (∀ c ∈ w, Byte.isWord c = true) →
        ∀ c ∈ w ++ [b], Byte.isWord c = true := fun hw =>
      List.forall_mem_append.2 ⟨hw, List.forall_mem_singleton.2 hword⟩
    cases h with
    | nothing => exact absurd rfl hne
    | word hw => exact .word (hall hw)
    | quote hw => exact .quote (hall hw)
  | number hcontinues =>
    cases h with
    | nothing => exact absurd rfl hne
    | number hdigit hchain =>
      refine .number hdigit (List.isChain_append.2 ⟨hchain, .singleton b, ?_⟩)
      intro before hbefore c hc
      rw [hlast rfl, hbefore] at hcontinues
      rw [Option.some_inj.1 hc.symm]
      exact hcontinues

/-! ## One byte -/

/-- What a dispatched byte does to the pending lexeme. -/
inductive Gathers (m : Machine) (b : UInt8) (s : Step) : Prop
  | rests (mode : s.machine.mode ≠ .inNumber) (pending : s.machine.pending = [])
  | begins (one : s.two = false) (first : Begins s.machine.mode b)
      (pending : s.machine.pending = [b]) (line : s.machine.pendingLine = m.line.number)
  | goesOn (one : s.two = false) (mode : s.machine.mode = m.mode)
      (next : GoesOn m.previous? m.mode b) (nonempty : m.pending ≠ [])
      (pending : s.machine.pending = b :: m.pending) (line : s.machine.pendingLine = m.pendingLine)

theorem push_of_pending_eq_nil (h : m.pending = []) (b : UInt8) :
    (m.push b).pending = [b] ∧ (m.push b).pendingLine = m.line.number := by
  simp [push, h]

theorem gathers_word (hm : m.mode = .regular) (h : Byte.isWord b = true) :
    Gathers m b ⟨m.push b, b, false⟩ := by
  by_cases hp : m.pending = []
  · obtain ⟨hpending, hline⟩ := push_of_pending_eq_nil hp b
    exact .begins rfl (hm ▸ .word h) hpending hline
  · exact .goesOn rfl rfl (hm ▸ .word h) hp rfl (by simp [push, hp])

/-- Outside every construct all bytes but those of words finish what is pending. -/
theorem gathers_regular (hm : m.mode = .regular) (b : UInt8) (next? : Option UInt8) :
    Gathers m b (m.regular b next?) := by
  have henter : ∀ {mode : Mode}, mode ≠ .inNumber → ∀ two,
      Gathers m b ⟨m.flush.enter mode, b, two⟩ :=
    fun hmode _ => .rests hmode (flush_pending m)
  have hmode : m.flush.mode ≠ .inNumber := by
    rw [flush_mode, hm]
    decide
  unfold regular
  split
  · exact henter (by decide) _
  split
  · exact henter (by decide) _
  split
  · exact henter (by decide) _
  split
  · exact henter (by decide) _
  split
  · rename_i hdigit
    obtain ⟨hpending, hline⟩ :=
      push_of_pending_eq_nil (m := { m.flush with mode := .inNumber }) (flush_pending m) b
    exact .begins rfl (.number hdigit) hpending (hline.trans (congrArg Line.number (flush_line m)))
  split
  · rename_i hword
    exact gathers_word hm hword
  split
  · exact .rests hmode (flush_pending m)
  · refine .rests ?_ (flush_pending _)
    rw [flush_mode]
    exact hmode

/-- In a literal nothing is pending, and behind its closer what `closed` has. -/
theorem gathers_quoted (hm : m.mode ≠ .inNumber) (hp : m.pending = []) {quote : UInt8}
    {closed : Machine} (hclosed : Gathers m quote ⟨{ closed with mode := .regular }, quote, false⟩)
    (b : UInt8) : Gathers m b (m.quoted quote b closed) := by
  unfold quoted
  split
  · rename_i hclose
    obtain ⟨hquote, -⟩ := Bool.and_eq_true_iff.1 hclose
    rw [beq_iff_eq.1 hquote]
    exact hclosed
  split
  · exact .rests hm hp
  · exact .rests hm hp

/-- In a number a byte goes on with it, or is dispatched when the number is finished. -/
theorem gathers_inNumber (hm : m.mode = .inNumber) (hp : m.pending ≠ []) (b : UInt8)
    (next? : Option UInt8) : Gathers m b (m.dispatch b next?) := by
  rw [dispatch, hm]
  dsimp only
  split
  · rename_i hcontinues
    exact .goesOn rfl hm.symm (hm ▸ .number hcontinues) hp rfl rfl
  · cases gathers_regular (m := { m.flush with mode := .regular }) rfl b next? with
    | rests hmode hpending => exact .rests hmode hpending
    | begins one first hpending hline =>
      exact .begins one first hpending (hline.trans (congrArg Line.number (flush_line m)))
    | goesOn one hmode next nonempty => exact absurd (flush_pending m) nonempty

/-- In every mode, if what is pending is what can be. -/
theorem gathers_dispatch (h : CanPend m.mode m.pending.reverse) (b : UInt8)
    (next? : Option UInt8) : Gathers m b (m.dispatch b next?) := by
  have hinside : m.mode ≠ .regular → m.mode ≠ .inNumber → m.pending = [] :=
    fun hregular hnumber => List.reverse_eq_nil_iff.1 (h.eq_nil hregular hnumber)
  cases hmode : m.mode with
  | regular =>
    rw [dispatch, hmode]
    exact gathers_regular hmode b next?
  | inNumber =>
    rw [hmode] at h
    obtain ⟨⟨first, others, hpending, -⟩, -⟩ := h.inNumber
    refine gathers_inNumber hmode (fun hp => ?_) b next?
    rw [hp] at hpending
    cases hpending
  | inComment | inLineComment =>
    have hp := hinside (by simp [hmode]) (by simp [hmode])
    rw [dispatch, hmode]
    dsimp only
    split
    · exact .rests (by simp) hp
    · exact .rests (by simp [hmode]) hp
  | inString =>
    have hp := hinside (by simp [hmode]) (by simp [hmode])
    rw [dispatch, hmode]
    exact gathers_quoted (by simp [hmode]) hp (.rests (by simp) hp) b
  | inChar =>
    have hp := hinside (by simp [hmode]) (by simp [hmode])
    obtain ⟨hpending, hline⟩ := push_of_pending_eq_nil hp 0x27
    rw [dispatch, hmode]
    exact gathers_quoted (by simp [hmode]) hp (.begins rfl .quote hpending hline) b

/-! ## One pass -/

/-- What holds of the machine that is to read on at an offset. It remembers a carriage return just
where that of a line end was skipped. What is pending has a form of its mode, ends where the bytes
end that were read, and has the line of its first byte. -/
structure Pends (source : List UInt8) (i : Nat) (m : Machine) : Prop where
  skipped : m.previous? = some Byte.cr ↔ splitsPair source i = true
  form : CanPend m.mode m.pending.reverse
  last : m.mode = .inNumber → splitsPair source i = false →
    m.previous? = m.pending.reverse.getLast?
  place : ∃ before, source.take (gatheredEnd source i) = before ++ m.pending.reverse ∧
    (m.pending ≠ [] → m.pendingLine = UInt32.ofNat (lineAt source before.length))

/-- Nothing is pending in front of the source. -/
theorem pends_start (source : List UInt8) : Pends source 0 {} where
  skipped := by simp [splitsPair]
  form := .nothing (by decide)
  last := nofun
  place := ⟨[], by simp [gatheredEnd, splitsPair], fun h => absurd rfl h⟩

/-- The carriage return of a line end is skipped. -/
theorem Pends.pair (h : Pends source i m) (hs : source.drop i = raw :: rest)
    (hpair : opensPair raw rest = true) :
    Pends source (i + 1) { m.startByte with previous? := some Byte.cr } := by
  have hsplits := (splitsPair_succ hs).trans hpair
  have hnot : splitsPair source i = false := by
    rw [← Bool.not_eq_true]
    intro hbefore
    cases (opensPair_iff.1 hpair).1.symm.trans (eq_lf_of_splitsPair hs hbefore)
  have hend : gatheredEnd source (i + 1) = gatheredEnd source i := by
    rw [gatheredEnd_of_not hnot, gatheredEnd, if_pos hsplits]
    rfl
  have hfields : m.startByte.mode = m.mode ∧ m.startByte.pending = m.pending ∧
      m.startByte.pendingLine = m.pendingLine := by
    unfold startByte
    split <;> exact ⟨rfl, rfl, rfl⟩
  obtain ⟨hmode, hpending, hline⟩ := hfields
  refine ⟨by simp [hsplits], ?_, ?_, ?_⟩
  · dsimp only
    rw [hmode, hpending]
    exact h.form
  · rw [hsplits]
    nofun
  · dsimp only
    rw [hend, hpending, hline]
    exact h.place

/-- No step but the one that skips a carriage return ends between the two bytes of a line end. -/
theorem splitsPair_dispatch (hs : source.drop i = raw :: rest) (hpair : opensPair raw rest = false)
    (m : Machine) (b : UInt8) :
    splitsPair source (i + if (m.dispatch b rest.head?).two then 2 else 1) = false := by
  cases htwo : (m.dispatch b rest.head?).two with
  | false => exact (splitsPair_succ hs).trans hpair
  | true =>
    obtain ⟨-, hnext⟩ := dispatch_two htwo
    obtain ⟨second, behind, rfl⟩ : ∃ second behind, rest = second :: behind := by
      cases rest with
      | nil => simp at hnext
      | cons second behind => exact ⟨second, behind, rfl⟩
    refine (splitsPair_succ (drop_succ_of_drop hs)).trans ?_
    rcases hnext with h | h <;> cases h <;> rfl

/-- A byte that is no backslash is remembered. -/
theorem dispatch_previous (hb : b ≠ 0x5C) (m : Machine) (next? : Option UInt8) :
    (m.dispatch b next?).settled.previous? = some b :=
  congrArg some ((m.dispatch_remembered b next?).resolve_right fun h => hb h.1)

theorem dispatch_previous_ne_cr (hb : b ≠ Byte.cr) (m : Machine) (next? : Option UInt8) :
    (m.dispatch b next?).settled.previous? ≠ some Byte.cr := by
  refine fun heq => ?_
  rcases m.dispatch_remembered b next? with h | ⟨-, h⟩
  · exact hb (h.symm.trans (Option.some_inj.1 heq))
  · cases h.symm.trans (Option.some_inj.1 heq)

/-- A byte is dispatched, and the one behind it taken where it belongs to the same delimiter. -/
theorem Pends.read (h : Pends source i m) (hline : OnLine source i m)
    (hs : source.drop i = raw :: rest) (hpair : opensPair raw rest = false)
    (hb : (if raw == Byte.cr then Byte.lf else raw) = b) (hstep : m.read b rest.head? = s) :
    Pends source (i + if s.two then 2 else 1) s.settled := by
  have hcr : b ≠ Byte.cr := by
    rw [← hb]
    split
    · decide
    · simpa using ‹¬(raw == Byte.cr) = true›
  rw [read_eq] at hstep
  have hgathers := gathers_dispatch (m := m.startOn b) h.form b rest.head?
  have hnot := splitsPair_dispatch hs hpair (m.startOn b) b
  have hprevious := dispatch_previous_ne_cr hcr (m.startOn b) rest.head?
  have hremembers : b ≠ 0x5C → ((m.startOn b).dispatch b rest.head?).settled.previous? = some b :=
    fun hbackslash => dispatch_previous hbackslash _ _
  rw [hstep] at hgathers hnot hprevious hremembers
  have hskipped : s.settled.previous? = some Byte.cr ↔
      splitsPair source (i + if s.two then 2 else 1) = true := by
    simp [hnot, hprevious]
  -- Only a byte that ends a line can differ from the one in the source.
  have htake : b ≠ Byte.lf → source.take (i + 1) = source.take i ++ [b] := by
    intro hlf
    rw [take_succ_of_drop hs, ← hb]
    split
    · rename_i hraw
      rw [if_pos hraw] at hb
      exact absurd hb.symm hlf
    · rfl
  cases hgathers with
  | rests hmode hpending =>
    refine ⟨hskipped, ?_, fun hnumber => absurd hnumber hmode,
      source.take (gatheredEnd source (i + if s.two then 2 else 1)), ?_,
      fun hne => absurd hpending hne⟩
    · rw [Step.settled, hpending]
      exact .nothing hmode
    · rw [gatheredEnd_of_not hnot, Step.settled, hpending]
      simp
  | begins one first hpending hnumber =>
    obtain ⟨hlf, hbackslash⟩ := first.ne
    rw [one] at hskipped hnot ⊢
    refine ⟨hskipped, ?_, fun _ _ => ?_, source.take i, ?_, fun _ => ?_⟩
    · rw [Step.settled, hpending]
      exact first.canPend
    · rw [hremembers hbackslash, Step.settled, hpending]
      rfl
    · rw [gatheredEnd_of_not hnot, Step.settled, hpending]
      exact htake hlf
    · rw [List.length_take_of_le (Nat.le_of_lt (lt_length_of_drop hs))]
      exact hnumber.trans ((m.startOn_number b).trans hline.nextNumber)
  | goesOn one hmode next nonempty hpending hnumber =>
    obtain ⟨hlf, hbackslash⟩ := next.ne
    obtain ⟨before, hplace, hfirst⟩ := h.place
    have hbefore : splitsPair source i = false := by
      rw [← Bool.not_eq_true]
      intro hsplits
      refine hlf ?_
      rw [← hb, eq_lf_of_splitsPair hs hsplits]
      rfl
    rw [gatheredEnd_of_not hbefore] at hplace
    rw [one] at hskipped hnot ⊢
    refine ⟨hskipped, ?_, fun _ _ => ?_, before, ?_, fun _ => ?_⟩
    · rw [Step.settled, hpending, hmode, List.reverse_cons]
      exact h.form.append (mt List.reverse_eq_nil_iff.1 nonempty) next
        fun hin => h.last hin hbefore
    · rw [hremembers hbackslash, Step.settled, hpending, List.reverse_cons, List.getLast?_concat]
    · rw [gatheredEnd_of_not hnot, Step.settled, hpending, List.reverse_cons, ← List.append_assoc,
        startOn_pending, ← hplace]
      exact htake hlf
    · exact hnumber.trans (hfirst nonempty)

end Machine

/-! ## The loop -/

/-- A machine, and the offset in the source at which it reads on. -/
structure Cursor where
  index : Nat := 0
  machine : Machine := {}

namespace Cursor

open Machine

variable {c : Cursor}

/-- One pass through the loop, which stops at the end of the source. -/
def next (source : List UInt8) (c : Cursor) : Cursor :=
  match source[c.index]? with
  | none => c
  | some raw =>
    let next? := source[c.index + 1]?
    if raw == Byte.cr && next? == some Byte.lf then
      ⟨c.index + 1, { c.machine.startByte with previous? := some Byte.cr }⟩
    else
      let step := c.machine.read (if raw == Byte.cr then Byte.lf else raw) next?
      ⟨c.index + if step.two then 2 else 1, step.settled⟩

/-- The loop after a number of passes. -/
def after (source : List UInt8) (n : Nat) : Cursor := (next source)^[n] {}

theorem after_succ (source : List UInt8) (n : Nat) :
    after source (n + 1) = (after source n).next source :=
  Function.iterate_succ_apply' _ _ _

theorem next_of_length_le (h : source.length ≤ c.index) : c.next source = c := by
  rw [next, List.getElem?_eq_none h]

/-- The carriage return of a line end is skipped, and remembered. -/
theorem next_pair (hs : source.drop c.index = raw :: rest) (hpair : opensPair raw rest = true) :
    c.next source = ⟨c.index + 1, { c.machine.startByte with previous? := some Byte.cr }⟩ := by
  obtain ⟨hraw, hnext⟩ := getElem?_of_drop hs
  rw [next, hraw, hnext]
  exact if_pos hpair

/-- Any other byte is read, a carriage return as a line feed. -/
theorem next_cons (hs : source.drop c.index = raw :: rest) (hpair : opensPair raw rest = false) :
    c.next source = ⟨c.index +
      if (c.machine.read (if raw == Byte.cr then Byte.lf else raw) rest.head?).two then 2 else 1,
      (c.machine.read (if raw == Byte.cr then Byte.lf else raw) rest.head?).settled⟩ := by
  obtain ⟨hraw, hnext⟩ := getElem?_of_drop hs
  rw [next, hraw, hnext]
  exact if_neg (Bool.eq_false_iff.1 hpair)

/-- One pass reads on in what is left of the source. -/
theorem advance_next (hs : source.drop c.index = raw :: rest) : c.machine.advance raw rest =
    ((c.next source).machine, source.drop (c.next source).index) := by
  have hrest := drop_succ_of_drop hs
  cases hpair : opensPair raw rest with
  | true => rw [next_pair hs hpair, advance_pair _ hpair, hrest]
  | false =>
    rw [next_cons hs hpair, advance_cons _ hpair]
    cases (c.machine.read (if raw == Byte.cr then Byte.lf else raw) rest.head?).two with
    | true => rw [if_pos rfl, if_pos rfl, ← hrest, List.tail_drop]
    | false => rw [if_neg Bool.false_ne_true, if_neg Bool.false_ne_true, hrest]

/-- What holds of the loop : its offset is one in the source, its machine is one of the run that
reads on with what is left, and pends what it should. -/
structure Sound (source : List UInt8) (c : Cursor) : Prop where
  index_le : c.index ≤ source.length
  reaches : Reaches source c.machine (source.drop c.index)
  pends : Pends source c.index c.machine

theorem Sound.onLine (h : c.Sound source) : OnLine source c.index c.machine := by
  obtain ⟨offset, hs, hle, hline⟩ := h.reaches.onLine
  have hlength := congrArg List.length hs
  rw [List.length_drop, List.length_drop] at hlength
  have hle' := h.index_le
  rwa [show c.index = offset by omega]

/-- Each pass goes on in the source and not beyond it. -/
theorem index_next (hs : source.drop c.index = raw :: rest) :
    c.index < (c.next source).index ∧ (c.next source).index ≤ source.length := by
  have hlt := lt_length_of_drop hs
  cases hpair : opensPair raw rest with
  | true =>
    rw [next_pair hs hpair]
    exact ⟨Nat.lt_succ_self _, hlt⟩
  | false =>
    rw [next_cons hs hpair]
    cases htwo : (c.machine.read (if raw == Byte.cr then Byte.lf else raw) rest.head?).two with
    | false => exact ⟨Nat.lt_succ_self _, hlt⟩
    | true =>
      rw [read_eq] at htwo
      obtain ⟨-, hnext⟩ := dispatch_two htwo
      rw [← (getElem?_of_drop hs).2] at hnext
      have hlt' : c.index + 1 < source.length := by
        rcases hnext with h | h <;> exact (List.getElem?_eq_some_iff.1 h).1
      exact ⟨Nat.lt_add_of_pos_right Nat.two_pos, hlt'⟩

/-- One pass keeps what is known of the loop. -/
theorem Sound.next (h : c.Sound source) : (c.next source).Sound source := by
  cases hs : source.drop c.index with
  | nil => rwa [next_of_length_le (List.drop_eq_nil_iff.1 hs)]
  | cons raw rest =>
    have hreaches := (hs ▸ h.reaches).step
    rw [advance_next hs] at hreaches
    refine ⟨(index_next hs).2, hreaches, ?_⟩
    cases hpair : opensPair raw rest with
    | true =>
      rw [next_pair hs hpair]
      exact h.pends.pair hs hpair
    | false =>
      rw [next_cons hs hpair]
      exact h.pends.read h.onLine hs hpair rfl rfl

/-- What is known of the loop holds after any number of passes. -/
theorem sound_after (source : List UInt8) (n : Nat) : (after source n).Sound source := by
  induction n with
  | zero => exact ⟨Nat.zero_le _, .start, pends_start source⟩
  | succ n ih =>
    rw [after_succ]
    exact ih.next

/-! ## The end of the loop -/

/-- A pass does a part of the run. -/
theorem run_next (source : List UInt8) (c : Cursor) :
    (c.next source).machine.run (source.drop (c.next source).index) =
      c.machine.run (source.drop c.index) := by
  cases hs : source.drop c.index with
  | nil => rw [next_of_length_le (List.drop_eq_nil_iff.1 hs), hs]
  | cons raw rest => rw [run_cons, advance_next hs]

theorem run_after (source : List UInt8) (n : Nat) :
    (after source n).machine.run (source.drop (after source n).index) =
      ({} : Machine).run source := by
  induction n with
  | zero => rfl
  | succ n ih => rw [after_succ, run_next, ih]

/-- After as many passes as there are bytes the loop is at the end. -/
theorem min_le_index_after (source : List UInt8) (n : Nat) :
    min n source.length ≤ (after source n).index := by
  induction n with
  | zero => simp
  | succ n ih =>
    rw [after_succ]
    cases hs : source.drop (after source n).index with
    | nil =>
      have hend := List.drop_eq_nil_iff.1 hs
      rw [next_of_length_le hend]
      omega
    | cons raw rest =>
      have hlt := (index_next hs).1
      omega

/-- A source of so many bytes is read in as many passes. -/
theorem after_of_length_le (h : source.length ≤ n) :
    after source n = ⟨source.length, ({} : Machine).run source⟩ := by
  have hindex : (after source n).index = source.length := by
    have hle := (sound_after source n).index_le
    have hge := min_le_index_after source n
    omega
  have hrun := run_after source n
  rw [hindex, List.drop_length, run] at hrun
  rw [← hindex, ← hrun]

/-! ## Any number of passes -/

/-- The offset stays in the source, and the loop comes to the end of the source as the machine that
the run gives. Inside the constructs nothing is pending; outside them what is pending is a word, or
a closing quote with a word behind it; in a number it is a digit and what goes on with a number, and
its last byte is remembered. The carriage return of a line end that was just skipped is remembered
instead. What is pending ends where the bytes end that were read, in front of such a carriage
return, and has the line of its first byte. -/
theorem pending_after (source : List UInt8) (n : Nat) :
    (after source n).index ≤ source.length ∧
    (source.length ≤ n → after source n = ⟨source.length, ({} : Machine).run source⟩) ∧
    let c := after source n
    let m := c.machine
    let lexeme := m.pending.reverse
    (m.mode ∈ [.inString, .inChar, .inComment, .inLineComment] → lexeme = []) ∧
    (m.mode = .regular → (∀ b ∈ lexeme, Byte.isWord b = true) ∨
      ∃ w, lexeme = 0x27 :: w ∧ ∀ b ∈ w, Byte.isWord b = true) ∧
    (m.mode = .inNumber → (∃ b w, lexeme = b :: w ∧ Byte.isDigit b = true) ∧
      (lexeme.IsChain fun before b =>
        (Byte.isNumeric b || (Byte.isSign b && Byte.isExponent before)) = true) ∧
      m.previous? = if splitsPair source c.index then some Byte.cr else lexeme.getLast?) ∧
    (m.previous? = some Byte.cr ↔ splitsPair source c.index = true) ∧
    ∃ before, source.take (gatheredEnd source c.index) = before ++ lexeme ∧
      (lexeme ≠ [] → m.pendingLine = UInt32.ofNat (lineAt source before.length) ∧
        (source.length + 1 < UInt32.size →
          m.pendingLine.toNat = lineAt source before.length)) := by
  obtain ⟨hindex, -, hskipped, hform, hlast, before, hplace, hline⟩ := sound_after source n
  refine ⟨hindex, after_of_length_le, ?_⟩
  intro c m lexeme
  refine ⟨?_, ?_, ?_, hskipped, before, hplace, ?_⟩
  · intro hmode
    refine hform.eq_nil (fun heq => ?_) fun heq => ?_
    all_goals
      rw [heq] at hmode
      exact absurd hmode (by decide)
  · intro hmode
    rw [hmode] at hform
    exact hform.regular
  · intro hmode
    have hnumber : CanPend .inNumber lexeme := hmode ▸ hform
    refine ⟨hnumber.inNumber.1, hnumber.inNumber.2, ?_⟩
    split
    · rename_i hsplits
      exact hskipped.2 hsplits
    · rename_i hsplits
      exact hlast hmode (Bool.eq_false_iff.2 hsplits)
  · intro hne
    have hnumber := hline (mt List.reverse_eq_nil_iff.2 hne)
    refine ⟨hnumber, fun hlen => ?_⟩
    rw [hnumber]
    have hle := congrArg List.length hplace
    rw [List.length_append, List.length_take] at hle
    exact toNat_ofNat_lineAt hlen (by omega)

/-- A number behind an open word, in front of a line end. -/
example : (List.range 6).map (fun n =>
    let c := after [0x61, 0x31, 0x65, 0x0D, 0x0A] n
    (c.index, c.machine.mode, c.machine.pending.reverse, c.machine.previous?)) =
      [(0, .regular, [], none), (1, .regular, [0x61], some 0x61), (2, .inNumber, [0x31], some 0x31),
        (3, .inNumber, [0x31, 0x65], some 0x65), (4, .inNumber, [0x31, 0x65], some 0x0D),
        (5, .regular, [], some 0x0A)] := by
  decide

end Cursor

end ScalaLex
