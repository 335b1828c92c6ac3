import ScalaLex.Proofs.Steps
import ScalaLex.Proofs.Pieces

/-!
# What a byte does in each mode

Equations for `Machine.read`, mode by mode. Outside every construct a byte that does not
continue a word first finishes the pending lexeme (`regular_flush`). In a number it is
gathered, or read as if outside every construct (`read_inNumber_of_not`). Inside a construct it
leaves the machine as it is until the closer that counts (`read_inside`, `read_closer`);
there the byte that is remembered is a backslash exactly after an odd number of them
(`Sees`).
-/

namespace ScalaLex

namespace Byte

variable {b : UInt8}

theorem isDigit_of_isWord (h : isWord b = true) : isDigit b = false := by
  grind [isWord, isLetter, isDigit]

theorem isWord_of_isBlank (h : isBlank b = true) : isWord b = false := by
  grind [isWord, isLetter, isBlank]

theorem isDigit_of_isBlank (h : isBlank b = true) : isDigit b = false := by
  grind [isDigit, isBlank]

theorem singleton_isPrefixOf (a b : UInt8) (rest : List UInt8) :
    [a].isPrefixOf (b :: rest) = (b == a) := by
  simp [List.isPrefixOf, BEq.comm]

theorem pair_isPrefixOf (a c b : UInt8) (rest : List UInt8) :
    [a, c].isPrefixOf (b :: rest) = (b == a && rest.head? == some c) := by
  cases rest with
  | nil => simp [List.isPrefixOf]
  | cons e rest =>
    rw [List.isPrefixOf, singleton_isPrefixOf, BEq.comm]
    rfl

/-- A byte that opens a construct is neither a digit nor part of a word, nor blank. -/
theorem ne_of_class (h : (isWord b || isDigit b || isBlank b) = true) :
    b ≠ 0x2F ∧ b ≠ 0x22 ∧ b ≠ 0x27 := by
  refine ⟨?_, ?_, ?_⟩ <;> rintro rfl <;> cases h

end Byte

/-- Only a slash or a quote opens a construct. -/
theorem Delimiter.opening?_of_ne {b : UInt8} (h : b ≠ 0x2F ∧ b ≠ 0x22 ∧ b ≠ 0x27)
    (rest : List UInt8) : opening? (b :: rest) = none := by
  obtain ⟨hslash, hquote, hchar⟩ := h
  refine List.find?_eq_none.2 fun d _ => ?_
  cases d <;> simp [opener, Byte.pair_isPrefixOf, Byte.singleton_isPrefixOf, *]

/-- No word, digit or blank opens a construct. -/
theorem Delimiter.opening?_of_class {b : UInt8}
    (h : (Byte.isWord b || Byte.isDigit b || Byte.isBlank b) = true) (rest : List UInt8) :
    opening? (b :: rest) = none :=
  opening?_of_ne (Byte.ne_of_class h) rest

namespace Piece

variable {b : UInt8}

/-- At a byte of a word the piece is the word. -/
theorem front_word (h : Byte.isWord b = true) (rest : List UInt8) : front b rest =
    ({ lexeme := b :: rest.takeWhile Byte.isWord }, rest.dropWhile Byte.isWord) := by
  unfold front
  rw [Delimiter.opening?_of_class (by rw [h]; rfl), Byte.isDigit_of_isWord h, h]
  rfl

/-- At a digit the piece is the number. -/
theorem front_number (h : Byte.isDigit b = true) (rest : List UInt8) : front b rest =
    ({ mode := .inNumber, lexeme := b :: numberRun b rest },
      rest.drop (numberRun b rest).length) := by
  unfold front
  rw [Delimiter.opening?_of_class (by rw [h, Bool.or_true]; rfl), h]
  rfl

/-- At a blank the piece is the blank, and it is skipped. -/
theorem front_blank (h : Byte.isBlank b = true) (rest : List UInt8) :
    front b rest = ({ skipped := [b] }, rest) := by
  unfold front
  rw [Delimiter.opening?_of_class (by rw [h, Bool.or_true]), Byte.isDigit_of_isBlank h,
    Byte.isWord_of_isBlank h, h]
  rfl

/-- Any other byte that opens nothing is a piece of its own. -/
theorem front_symbol {rest : List UInt8} (hopen : Delimiter.opening? (b :: rest) = none)
    (h : (Byte.isDigit b || Byte.isWord b || Byte.isBlank b) = false) :
    front b rest = ({ lexeme := [b] }, rest) := by
  simp only [Bool.or_eq_false_iff] at h
  unfold front
  rw [hopen, h.1.1, h.1.2, h.2]
  rfl

end Piece

namespace Machine

/-- The machine with a byte put on its line, before the byte is dispatched. -/
def startOn (m : Machine) (b : UInt8) : Machine :=
  { m with line := (if m.previous? == some Byte.lf then m.line.next else m.line).track b }

variable {m : Machine} {b : UInt8} {next? : Option UInt8} {rest : List UInt8}

/-- A byte starts on its line, and then the mode decides. -/
theorem read_eq (m : Machine) (b : UInt8) (next? : Option UInt8) :
    m.read b next? = (m.startOn b).dispatch b next? := by
  unfold read startOn startByte
  split <;> rfl

/-! ## Fields -/

@[simp] theorem startOn_mode (m : Machine) (b : UInt8) : (m.startOn b).mode = m.mode := rfl

@[simp] theorem startOn_pending (m : Machine) (b : UInt8) :
    (m.startOn b).pending = m.pending := rfl

@[simp] theorem startOn_previous (m : Machine) (b : UInt8) :
    (m.startOn b).previous? = m.previous? := rfl

@[simp] theorem startOn_number (m : Machine) (b : UInt8) :
    (m.startOn b).line.number = m.nextNumber := by
  unfold startOn nextNumber startByte
  rw [track_number]
  split <;> rfl

/-- With nothing pending a flush changes nothing. -/
theorem flush_of_pending_eq_nil (h : m.pending = []) : m.flush = m := by
  simp [flush, h]

@[simp] theorem flush_pending (m : Machine) : m.flush.pending = [] := by
  unfold flush
  split
  · rename_i h
    exact List.isEmpty_iff.1 h
  · rfl

@[simp] theorem flush_flush (m : Machine) : m.flush.flush = m.flush :=
  flush_of_pending_eq_nil m.flush_pending

@[simp] theorem flush_mode (m : Machine) : m.flush.mode = m.mode := by
  unfold flush
  split <;> rfl

@[simp] theorem flush_opened (m : Machine) : m.flush.opened = m.opened := by
  unfold flush
  split <;> rfl

@[simp] theorem flush_previous (m : Machine) : m.flush.previous? = m.previous? := by
  unfold flush
  split <;> rfl

@[simp] theorem flush_nextNumber (m : Machine) : m.flush.nextNumber = m.nextNumber :=
  nextNumber_congr m.flush_previous m.flush_line

/-- A flush finishes what is pending, with the line of its first byte. -/
theorem flush_finished (h : m.pending ≠ []) :
    m.flush.finished = ⟨m.pending.reverse, m.pendingLine⟩ :: m.finished := by
  simp [flush, h]

/-- A flush does not depend on the line that a byte starts on. -/
theorem startOn_flush (m : Machine) (b : UInt8) : m.flush.startOn b = (m.startOn b).flush := by
  obtain ⟨mode, pending, pendingLine, line, previous?, openedAt, finished, opened⟩ := m
  cases pending <;> rfl

/-! ## Outside every construct -/

/-- Outside the constructs a byte of a word becomes pending. -/
theorem regular_word (h : Byte.isWord b = true) (m : Machine) (next? : Option UInt8) :
    m.regular b next? = ⟨m.push b, b, false⟩ := by
  obtain ⟨hslash, hquote, hchar⟩ := Byte.ne_of_class (b := b) (by simp [h])
  simp [regular, hslash, hquote, hchar, Byte.isDigit_of_isWord h, h]

/-- A digit flushes what is pending and starts a number. -/
theorem regular_digit (h : Byte.isDigit b = true) (m : Machine) (next? : Option UInt8) :
    m.regular b next? = ⟨{ m.flush with mode := .inNumber }.push b, b, false⟩ := by
  obtain ⟨hslash, hquote, hchar⟩ := Byte.ne_of_class (b := b) (by simp [h])
  simp [regular, hslash, hquote, hchar, h]

/-- A blank flushes what is pending. -/
theorem regular_blank (h : Byte.isBlank b = true) (m : Machine) (next? : Option UInt8) :
    m.regular b next? = ⟨m.flush, b, false⟩ := by
  obtain ⟨hslash, hquote, hchar⟩ := Byte.ne_of_class (b := b) (by simp [h])
  simp [regular, hslash, hquote, hchar, Byte.isDigit_of_isBlank h, Byte.isWord_of_isBlank h, h]

/-- Any other byte that opens nothing is flushed before and behind it. -/
theorem regular_symbol (hopen : Delimiter.opening? (b :: rest) = none)
    (h : (Byte.isDigit b || Byte.isWord b || Byte.isBlank b) = false) (m : Machine) :
    m.regular b rest.head? = ⟨(m.flush.push b).flush, b, false⟩ := by
  simp only [Bool.or_eq_false_iff] at h
  have hnone : ∀ d : Delimiter, d.opener.isPrefixOf (b :: rest) = false := by
    intro d
    exact Bool.eq_false_iff.2 (List.find?_eq_none.1 hopen d (by cases d <;> decide))
  have hblock := hnone .blockComment
  have hline := hnone .lineComment
  have hstring := hnone .string
  have hchar := hnone .char
  dsimp only [Delimiter.opener] at hblock hline hstring hchar
  rw [Byte.pair_isPrefixOf] at hblock hline
  rw [Byte.singleton_isPrefixOf] at hstring hchar
  rw [regular, hblock, hline, hstring, hchar, h.1.1, h.1.2, h.2]
  rfl

/-- The opener of a construct is read in one step. -/
theorem regular_opener (d : Delimiter) (m : Machine) (body : List UInt8)
    (hs : d.opener ++ body = b :: rest) :
    m.regular b rest.head? = ⟨m.flush.enter d.mode, b, d.opener.length == 2⟩ := by
  cases d <;> obtain ⟨rfl, rfl⟩ := List.cons.inj hs <;> rfl

/-- A byte that is not part of a word finishes the pending lexeme. -/
theorem regular_flush (h : Byte.isWord b = false) (m : Machine) (next? : Option UInt8) :
    m.flush.regular b next? = m.regular b next? := by
  unfold regular
  simp only [flush_flush, h]
  rfl

theorem read_regular (hm : m.mode = .regular) (b : UInt8) (next? : Option UInt8) :
    m.read b next? = (m.startOn b).regular b next? := by
  rw [read_eq, dispatch, startOn_mode, hm]

/-! ## In a number -/

/-- In a number the bytes that go on with it become pending. -/
theorem read_inNumber (hm : m.mode = .inNumber) (h : continuesNumber m.previous? b = true)
    (next? : Option UInt8) : m.read b next? =
      ⟨{ m.startOn b with pending := b :: (m.startOn b).pending }, b, false⟩ := by
  rw [read_eq, dispatch, startOn_mode, hm]
  dsimp only
  rw [startOn_previous, if_pos h, startOn_mode, hm]

/-- A byte that does not continue the number is read outside it. -/
theorem read_inNumber_of_not (hm : m.mode = .inNumber)
    (h : continuesNumber m.previous? b = false) (next? : Option UInt8) :
    m.read b next? = { m.flush with mode := .regular }.read b next? := by
  have hafter := read_regular (m := { m.flush with mode := .regular }) rfl b next?
  rw [hafter, read_eq, dispatch, startOn_mode, hm]
  dsimp only
  rw [startOn_previous, h, ← startOn_flush]
  rfl

/-! ## Inside a construct -/

/-- A byte behind a body ends its run of backslashes or is one more of them. -/
theorem trailingBackslashes_append (body : List UInt8) (b : UInt8) :
    trailingBackslashes (body ++ [b]) = if b = 0x5C then trailingBackslashes body + 1 else 0 := by
  rw [trailingBackslashes, List.reverse_append]
  by_cases h : b = 0x5C
  · simp [h, trailingBackslashes]
  · simp [h]

/-- A machine inside a construct whose body so far is `before` : in a quoted literal it
remembers a backslash exactly if an odd number of them ends the body. -/
structure Sees (d : Delimiter) (before : List UInt8) (m : Machine) : Prop where
  mode : m.mode = d.mode
  backslash : d.isQuote = true →
    (m.previous? = some 0x5C ↔ trailingBackslashes before % 2 = 1)

/-- The machine behind the closer of a construct. -/
def behind (m : Machine) : Delimiter → Machine
  | .char => { m.push 0x27 with mode := .regular }
  | .blockComment | .lineComment | .string => { m with mode := .regular }

variable {d : Delimiter} {before : List UInt8}

/-- A byte that closes the construct leaves it, with the byte behind it where the closer has two. -/
theorem read_closer (hm : Sees d before m) (h : d.closes before (b :: rest) = true) :
    m.read b rest.head? = ⟨(m.startOn b).behind d, b, d.closer.length == 2⟩ := by
  have happend := Delimiter.append_drop_of_closes h
  rw [Delimiter.closes, Bool.and_eq_true] at h
  have hopen : d.isQuote = true → (m.previous? != some 0x5C) = true := by
    intro hq
    have heven : trailingBackslashes before % 2 = 0 := by simpa [hq] using h.2
    rw [bne_iff_ne, Ne, hm.backslash hq, heven]
    decide
  rw [read_eq, dispatch, startOn_mode, hm.mode]
  cases d with
  | blockComment =>
    obtain ⟨rfl, htail⟩ := List.cons.inj happend
    have hnext : rest.head? = some 0x2F := by
      rw [← htail]
      rfl
    rw [hnext]
    rfl
  | lineComment =>
    obtain ⟨rfl, -⟩ := List.cons.inj happend
    rfl
  | string | char =>
    obtain ⟨rfl, -⟩ := List.cons.inj happend
    have := hopen rfl
    simp only [Delimiter.mode, quoted, startOn_previous, this]
    rfl

/-- A comment is closed wherever its closer comes. -/
theorem closes_comment (hq : d.isQuote = false) (before after : List UInt8) :
    d.closes before after = d.closer.isPrefixOf after := by
  rw [Delimiter.closes, hq, Bool.not_false, Bool.true_or, Bool.and_true]

/-- A quote closes a literal behind an even number of backslashes. -/
theorem closes_quote (hq : d.isQuote = true) : d.closes before (b :: rest) =
    (b == d.closer.head d.closer_ne_nil && trailingBackslashes before % 2 == 0) := by
  cases d with
  | blockComment | lineComment => cases hq
  | string | char =>
    rw [Delimiter.closes, Delimiter.isQuote, Bool.not_true, Bool.false_or]
    exact congrArg (· && trailingBackslashes before % 2 == 0) (Byte.singleton_isPrefixOf _ b rest)

/-- A byte of the body of a quoted literal leaves a backslash behind exactly if it ends an
odd number of them. -/
theorem quoted_inside (hq : d.isQuote = true) (hm : Sees d before m) (closed : Machine)
    (h : d.closes before (b :: rest) = false) :
    ∃ r, m.quoted (d.closer.head d.closer_ne_nil) b closed = ⟨m, r, false⟩ ∧
      (r = 0x5C ↔ trailingBackslashes (before ++ [b]) % 2 = 1) := by
  have hparity : m.previous? ≠ some 0x5C ↔ trailingBackslashes before % 2 = 0 := by
    rw [Ne, hm.backslash hq]
    omega
  rw [closes_quote hq] at h
  have hstay : (b == d.closer.head d.closer_ne_nil && m.previous? != some 0x5C) = false := by
    rw [Bool.and_eq_false_iff] at h ⊢
    refine h.imp_right fun hodd => ?_
    rw [bne_eq_false_iff_eq, hm.backslash hq]
    have : trailingBackslashes before % 2 ≠ 0 := by simpa using hodd
    omega
  rw [quoted, hstay, trailingBackslashes_append]
  by_cases hb : b = 0x5C
  · by_cases hprev : m.previous? = some 0x5C
    · have hodd := (hm.backslash hq).1 hprev
      refine ⟨0x20, by simp [hb, hprev], ?_⟩
      rw [if_pos hb]
      exact ⟨nofun, by omega⟩
    · have heven := hparity.1 hprev
      refine ⟨b, by simp [hprev], ?_⟩
      rw [if_pos hb]
      exact ⟨by omega, fun _ => hb⟩
  · refine ⟨b, by simp [hb], ?_⟩
    simp [hb]

/-- Before the closer that counts, the machine stays inside. -/
theorem read_inside (hm : Sees d before m) (h : d.closes before (b :: rest) = false) :
    ∃ r, m.read b rest.head? = ⟨m.startOn b, r, false⟩ ∧
      Sees d (before ++ [b]) { m.startOn b with previous? := some r } := by
  have hsees : Sees d before (m.startOn b) := ⟨hm.mode, hm.backslash⟩
  rw [read_eq, dispatch, startOn_mode, hm.mode]
  cases d with
  | blockComment =>
    refine ⟨b, ?_, hm.mode, nofun⟩
    rw [closes_comment rfl, Delimiter.closer, Byte.pair_isPrefixOf] at h
    dsimp only [Delimiter.mode]
    rw [h]
    rfl
  | lineComment =>
    refine ⟨b, ?_, hm.mode, nofun⟩
    rw [closes_comment rfl, Delimiter.closer, Byte.singleton_isPrefixOf] at h
    dsimp only [Delimiter.mode]
    rw [h]
    rfl
  | string | char =>
    obtain ⟨r, hr, hodd⟩ := quoted_inside rfl hsees _ h
    exact ⟨r, hr, hm.mode, fun _ => by simpa using hodd⟩

end Machine

end ScalaLex
