import ScalaLex.Proofs.LineEnds
import ScalaLex.Scan.Mode

/-!
# Pieces of a source

A normalized source is cut into pieces, construct by construct and without a machine. A
piece is a comment, a quoted literal, a number, a word, a blank or a single symbol; it
passes over some bytes and ends in a lexeme, either of which can be empty.

A comment or quoted literal starts with the `opener` of its `Delimiter` and goes on through
the first `closer` that counts, or to the end of the source (`Delimiter.close?`,
`close?_eq_some_iff`). The closer of a quoted literal counts after an even number of
backslashes. Only a character literal has a lexeme : its closing quote and the word right
behind it.

`Piece.Front` lists what a piece can be (`Piece.front_spec`). `pieces` cuts the front piece off
until nothing is left, so the pieces make up the source
(`flatMap_bytes_pieces`). `lexemesOf` lists the lexemes of a source in order, each on the
line of its first byte.
-/

namespace ScalaLex

/-! ## Delimiters -/

/-- The constructs that have an opener and a closer. -/
inductive Delimiter where
  | blockComment
  | lineComment
  | string
  | char
deriving Repr, DecidableEq, Inhabited

namespace Delimiter

/-- The delimiters in the order in which their openers are looked for. -/
def all : List Delimiter := [blockComment, lineComment, string, char]

/-- The bytes that open the construct. -/
def opener : Delimiter → List UInt8
  | blockComment => [0x2F, 0x2A]
  | lineComment => [0x2F, 0x2F]
  | string => [0x22]
  | char => [0x27]

/-- The bytes that close the construct. -/
def closer : Delimiter → List UInt8
  | blockComment => [0x2A, 0x2F]
  | lineComment => [Byte.lf]
  | string => [0x22]
  | char => [0x27]

/-- The mode of a scan inside the construct. -/
def mode : Delimiter → Mode
  | blockComment => .inComment
  | lineComment => .inLineComment
  | string => .inString
  | char => .inChar

/-- A backslash in the body escapes the closer. -/
def isQuote : Delimiter → Bool
  | blockComment | lineComment => false
  | string | char => true

/-- The construct that a source starts with. -/
def opening? (s : List UInt8) : Option Delimiter := all.find? fun d => d.opener.isPrefixOf s

end Delimiter

/-- How many backslashes a body ends in. -/
def trailingBackslashes (body : List UInt8) : Nat :=
  (body.reverse.takeWhile (· == 0x5C)).length

namespace Delimiter

/-- The construct with the body `before` is closed by what comes `after` it. -/
def closes (d : Delimiter) (before after : List UInt8) : Bool :=
  d.closer.isPrefixOf after && (!d.isQuote || trailingBackslashes before % 2 == 0)

/-- The body up to the first closer and what follows the closer, `before` being the part of
the body that was searched. -/
def close? (d : Delimiter) (before : List UInt8) : List UInt8 → Option (List UInt8 × List UInt8)
  | [] => none
  | b :: rest =>
    if d.closes before (b :: rest) then some (before, (b :: rest).drop d.closer.length)
    else close? d (before ++ [b]) rest

end Delimiter

/-! ## Pieces -/

/-- A piece of a source : bytes that are passed over, then a lexeme. -/
structure Piece where
  /-- What a scan is inside of in the piece. -/
  mode : Mode := .regular
  skipped : List UInt8 := []
  lexeme : List UInt8 := []
  /-- It does not run into the end of the source for want of a closer. -/
  closed : Bool := true
deriving Repr, DecidableEq, Inhabited

/-- All bytes of the piece. -/
def Piece.bytes (p : Piece) : List UInt8 := p.skipped ++ p.lexeme

/-- The comment or quoted literal with a body at the front of what follows its opener, and
the source behind it. A line comment needs no closer at the end of the source. -/
def Delimiter.front (d : Delimiter) (body : List UInt8) : Piece × List UInt8 :=
  match d.close? [] body with
  | none => (⟨d.mode, d.opener ++ body, [], !d.mode.swallowsInput⟩, [])
  | some (inner, rest) =>
    match d with
    | .char => (⟨d.mode, d.opener ++ inner, d.closer ++ rest.takeWhile Byte.isWord, true⟩,
        rest.dropWhile Byte.isWord)
    | _ => (⟨d.mode, d.opener ++ inner ++ d.closer, [], true⟩, rest)

/-- The longest continuation of a number behind the byte `before` : digits, points and
exponent letters, and signs directly behind an exponent letter. -/
def numberRun (before : UInt8) : List UInt8 → List UInt8
  | [] => []
  | b :: rest =>
    if Byte.isNumeric b || (Byte.isSign b && Byte.isExponent before) then b :: numberRun b rest
    else []

/-- The piece at the front of a source, and the source behind it. -/
def Piece.front (b : UInt8) (rest : List UInt8) : Piece × List UInt8 :=
  match Delimiter.opening? (b :: rest) with
  | some d => d.front ((b :: rest).drop d.opener.length)
  | none =>
    if Byte.isDigit b then
      ({ mode := .inNumber, lexeme := b :: numberRun b rest }, rest.drop (numberRun b rest).length)
    else if Byte.isWord b then
      ({ lexeme := b :: rest.takeWhile Byte.isWord }, rest.dropWhile Byte.isWord)
    else if Byte.isBlank b then ({ skipped := [b] }, rest)
    else ({ lexeme := [b] }, rest)

variable {d : Delimiter} {s body inner before after rest : List UInt8} {b : UInt8}

namespace Delimiter

/-! ## Where a construct ends -/

theorem closer_ne_nil (d : Delimiter) : d.closer ≠ [] := by cases d <;> decide

theorem opener_ne_nil (d : Delimiter) : d.opener ≠ [] := by cases d <;> decide

theorem count_opener (d : Delimiter) : d.opener.count Byte.lf = 0 := by cases d <;> decide

theorem closes_nil (d : Delimiter) (before : List UInt8) : d.closes before [] = false := by
  cases d <;> rfl

/-- Where a construct closes its closer stands. -/
theorem append_drop_of_closes (h : d.closes before after = true) :
    d.closer ++ after.drop d.closer.length = after := by
  rw [closes, Bool.and_eq_true, List.isPrefixOf_iff_prefix] at h
  exact List.prefix_iff_eq_append.1 h.1

/-- The search goes on from the part of the body that was searched. -/
theorem close?_eq_some_iff_append : d.close? before s = some (inner, rest) ↔
    ∃ found, inner = before ++ found ∧ s = found ++ d.closer ++ rest ∧
      d.closes inner (d.closer ++ rest) = true ∧ ∀ u v, s = u ++ v → u.length < found.length →
        d.closes (before ++ u) v = false := by
  induction s generalizing before with
  | nil =>
    rw [close?]
    refine ⟨fun h => (Option.some_ne_none _ h.symm).elim, ?_⟩
    rintro ⟨found, -, h, -⟩
    simp [d.closer_ne_nil] at h
  | cons b s ih =>
    rw [close?]
    by_cases hclose : d.closes before (b :: s) = true
    · rw [if_pos hclose]
      have happend := append_drop_of_closes hclose
      constructor
      · intro h
        obtain ⟨rfl, rfl⟩ := Prod.mk.inj (Option.some.inj h)
        refine ⟨[], (List.append_nil _).symm, ?_, ?_, ?_⟩
        · rw [List.nil_append, happend]
        · rwa [happend]
        · intro u v _ hu
          exact (Nat.not_lt_zero _ hu).elim
      · rintro ⟨found, rfl, hs, -, hfirst⟩
        cases found with
        | nil =>
          rw [List.nil_append] at hs
          rw [hs, List.drop_left, List.append_nil]
        | cons c found =>
          have := hfirst [] (b :: s) rfl (Nat.succ_pos _)
          rw [List.append_nil, hclose] at this
          cases this
    · rw [if_neg hclose, ih]
      rw [Bool.not_eq_true] at hclose
      constructor
      · rintro ⟨found, rfl, hs, hend, hfirst⟩
        refine ⟨b :: found, by simp, by simp [hs], hend, ?_⟩
        intro u v huv hu
        cases u with
        | nil =>
          rw [List.nil_append] at huv
          rw [List.append_nil, ← huv, hclose]
        | cons c u =>
          obtain ⟨rfl, htail⟩ := List.cons.inj huv
          have := hfirst u v htail (Nat.lt_of_succ_lt_succ hu)
          rwa [List.append_assoc] at this
      · rintro ⟨found, rfl, hs, hend, hfirst⟩
        cases found with
        | nil =>
          rw [List.nil_append] at hs
          rw [List.append_nil, ← hs, hclose] at hend
          cases hend
        | cons c found =>
          obtain ⟨rfl, htail⟩ := List.cons.inj hs
          refine ⟨found, by simp, htail, hend, ?_⟩
          intro u v huv hu
          have := hfirst (b :: u) v (by rw [huv]; rfl) (Nat.succ_lt_succ hu)
          rwa [List.append_assoc]

/-- The body of a construct goes up to the first closer that counts. -/
theorem close?_eq_some_iff : d.close? [] s = some (inner, rest) ↔
    s = inner ++ d.closer ++ rest ∧ d.closes inner (d.closer ++ rest) = true ∧
      ∀ u v, s = u ++ v → u.length < inner.length → d.closes u v = false := by
  rw [close?_eq_some_iff_append]
  constructor
  · rintro ⟨found, rfl, h⟩
    exact h
  · intro h
    exact ⟨inner, rfl, h⟩

/-- A construct stays open just if no closer comes anywhere. -/
theorem close?_eq_none_iff : d.close? before s = none ↔
    ∀ u v, s = u ++ v → d.closes (before ++ u) v = false := by
  induction s generalizing before with
  | nil =>
    refine ⟨fun _ u v h => ?_, fun _ => rfl⟩
    obtain ⟨rfl, rfl⟩ := List.append_eq_nil_iff.1 h.symm
    exact d.closes_nil _
  | cons b s ih =>
    rw [close?]
    by_cases hclose : d.closes before (b :: s) = true
    · rw [if_pos hclose]
      refine ⟨fun h => (Option.some_ne_none _ h).elim, fun h => ?_⟩
      have := h [] (b :: s) rfl
      rw [List.append_nil, hclose] at this
      cases this
    · rw [if_neg hclose, ih]
      constructor
      · intro h u v huv
        cases u with
        | nil =>
          rw [List.nil_append] at huv
          rw [List.append_nil, ← huv]
          exact Bool.eq_false_iff.2 hclose
        | cons c u =>
          obtain ⟨rfl, htail⟩ := List.cons.inj huv
          have := h u v htail
          rwa [List.append_assoc] at this
      · intro h u v huv
        have := h (b :: u) v (by rw [huv]; rfl)
        rwa [List.append_assoc]

/-! ## Pieces make up the source -/

/-- Where a construct opens its opener stands. -/
theorem append_drop_of_opening? (h : opening? s = some d) :
    d.opener ++ s.drop d.opener.length = s := by
  have hd := List.find?_some h
  exact List.prefix_iff_eq_append.1 (List.isPrefixOf_iff_prefix.1 hd)

/-- No opener is the beginning of another one. -/
theorem opening?_opener (d : Delimiter) (body : List UInt8) :
    opening? (d.opener ++ body) = some d := by
  cases d <;> rfl

theorem bytes_front (d : Delimiter) (body : List UInt8) :
    (d.front body).1.bytes ++ (d.front body).2 = d.opener ++ body := by
  unfold front Piece.bytes
  cases hclose : d.close? [] body with
  | none => simp
  | some found =>
    obtain ⟨inner, rest⟩ := found
    obtain ⟨rfl, -, -⟩ := close?_eq_some_iff.1 hclose
    cases d with
    | char => simp [List.takeWhile_append_dropWhile]
    | blockComment | lineComment | string => simp

end Delimiter

theorem numberRun_append_drop (before : UInt8) (s : List UInt8) :
    numberRun before s ++ s.drop (numberRun before s).length = s := by
  induction s generalizing before with
  | nil => rfl
  | cons b rest ih =>
    rw [numberRun]
    split
    · rw [List.length_cons, List.drop_succ_cons, List.cons_append, ih]
    · rfl

namespace Piece

/-- The front piece of a source that starts with an opener is the construct. -/
theorem front_opener (h : b :: rest = d.opener ++ body) : front b rest = d.front body := by
  have hopen : Delimiter.opening? (b :: rest) = some d := by rw [h, Delimiter.opening?_opener]
  unfold front
  rw [hopen, h]
  dsimp only
  rw [List.drop_left]

/-- Nothing of the source is lost or read twice when the front piece is cut off. -/
theorem bytes_front (b : UInt8) (rest : List UInt8) :
    (front b rest).1.bytes ++ (front b rest).2 = b :: rest := by
  unfold front
  cases hopen : Delimiter.opening? (b :: rest) with
  | some d =>
    dsimp only
    rw [Delimiter.bytes_front, Delimiter.append_drop_of_opening? hopen]
  | none =>
    dsimp only
    split
    · simp [bytes, numberRun_append_drop]
    · split
      · simp [bytes, List.takeWhile_append_dropWhile]
      · split <;> rfl

theorem bytes_front_ne_nil (b : UInt8) (rest : List UInt8) : (front b rest).1.bytes ≠ [] := by
  unfold front bytes
  cases hopen : Delimiter.opening? (b :: rest) with
  | some d =>
    dsimp only
    unfold Delimiter.front
    have := d.opener_ne_nil
    split
    · simp [this]
    · split <;> simp [this]
  | none =>
    dsimp only
    repeat' split
    all_goals simp

/-- A piece takes at least one byte. -/
theorem length_front_le (b : UInt8) (rest : List UInt8) :
    (front b rest).2.length ≤ rest.length := by
  have hlen := congrArg List.length (bytes_front b rest)
  have hpos := List.length_pos_iff.2 (bytes_front_ne_nil b rest)
  rw [List.length_append, List.length_cons] at hlen
  omega

end Piece

/-! ## The front piece -/

/-- What the piece at the front of a source can be, with the source behind it. -/
inductive Piece.Front (b : UInt8) (rest : List UInt8) : Piece → List UInt8 → Prop
  /-- A comment or quoted literal without a closer. -/
  | unclosed {d : Delimiter} {body : List UInt8} (hs : b :: rest = d.opener ++ body)
      (hclose : d.close? [] body = none) :
      Front b rest ⟨d.mode, d.opener ++ body, [], !d.mode.swallowsInput⟩ []
  /-- A comment, or a string with both of its quotes. -/
  | closed {d : Delimiter} {inner behind : List UInt8} (hd : d ≠ .char)
      (hs : b :: rest = d.opener ++ (inner ++ d.closer ++ behind))
      (hclose : d.close? [] (inner ++ d.closer ++ behind) = some (inner, behind)) :
      Front b rest ⟨d.mode, d.opener ++ inner ++ d.closer, [], true⟩ behind
  /-- A character literal, with the word behind its closing quote. -/
  | char {inner behind : List UInt8}
      (hs : b :: rest = Delimiter.char.opener ++ (inner ++ Delimiter.char.closer ++ behind))
      (hclose : Delimiter.char.close? [] (inner ++ Delimiter.char.closer ++ behind) =
        some (inner, behind)) :
      Front b rest ⟨.inChar, Delimiter.char.opener ++ inner,
        Delimiter.char.closer ++ behind.takeWhile Byte.isWord, true⟩
        (behind.dropWhile Byte.isWord)
  | number (hdigit : Byte.isDigit b = true) :
      Front b rest { mode := .inNumber, lexeme := b :: numberRun b rest }
        (rest.drop (numberRun b rest).length)
  | word (hword : Byte.isWord b = true) :
      Front b rest { lexeme := b :: rest.takeWhile Byte.isWord } (rest.dropWhile Byte.isWord)
  | blank (hblank : Byte.isBlank b = true) : Front b rest { skipped := [b] } rest
  | symbol (hopen : Delimiter.opening? (b :: rest) = none)
      (hclass : (Byte.isDigit b || Byte.isWord b || Byte.isBlank b) = false) :
      Front b rest { lexeme := [b] } rest

theorem Piece.front_spec (b : UInt8) (rest : List UInt8) :
    Front b rest (front b rest).1 (front b rest).2 := by
  unfold front
  cases hopen : Delimiter.opening? (b :: rest) with
  | some d =>
    have hs := (Delimiter.append_drop_of_opening? hopen).symm
    dsimp only [Delimiter.front]
    cases hclose : d.close? [] ((b :: rest).drop d.opener.length) with
    | none => exact .unclosed hs hclose
    | some found =>
      obtain ⟨inner, behind⟩ := found
      have hbody := (Delimiter.close?_eq_some_iff.1 hclose).1
      rw [hbody] at hs hclose
      cases d with
      | char => exact .char hs hclose
      | blockComment | lineComment | string => exact .closed nofun hs hclose
  | none =>
    dsimp only
    by_cases hdigit : Byte.isDigit b = true
    · rw [if_pos hdigit]
      exact .number hdigit
    · rw [if_neg hdigit]
      by_cases hword : Byte.isWord b = true
      · rw [if_pos hword]
        exact .word hword
      · rw [if_neg hword]
        by_cases hblank : Byte.isBlank b = true
        · rw [if_pos hblank]
          exact .blank hblank
        · rw [if_neg hblank]
          exact .symbol hopen (by simp_all)

/-! ## All pieces -/

/-- The pieces of a normalized source. -/
def pieces : List UInt8 → List Piece
  | [] => []
  | b :: rest => (Piece.front b rest).1 :: pieces (Piece.front b rest).2
termination_by s => s.length
decreasing_by exact Nat.lt_succ_of_le (Piece.length_front_le b rest)

/-- A source that starts with an opener has the construct as its first piece. -/
theorem Delimiter.pieces_opener (d : Delimiter) (body : List UInt8) :
    pieces (d.opener ++ body) = (d.front body).1 :: pieces (d.front body).2 := by
  obtain ⟨b, rest, hs⟩ := List.exists_cons_of_ne_nil
    (List.append_ne_nil_of_left_ne_nil d.opener_ne_nil body)
  rw [hs, pieces, Piece.front_opener hs.symm]

/-- The bytes of the pieces are the source. -/
theorem flatMap_bytes_pieces (s : List UInt8) : (pieces s).flatMap Piece.bytes = s := by
  fun_induction pieces s with
  | case1 => rfl
  | case2 b rest ih => rw [List.flatMap_cons, ih, Piece.bytes_front]

/-! ## Lexemes in their places -/

/-- A lexeme, and the offset of its first byte. -/
structure Placed where
  bytes : List UInt8
  offset : Nat
deriving Repr, DecidableEq, Inhabited

/-- The lexemes of pieces that start at an offset. -/
def placed (offset : Nat) : List Piece → List Placed
  | [] => []
  | p :: ps =>
    if p.lexeme.isEmpty then placed (offset + p.bytes.length) ps
    else ⟨p.lexeme, offset + p.skipped.length⟩ :: placed (offset + p.bytes.length) ps

/-- The first piece that needs a closer and has none, and its offset. -/
def unclosed? (offset : Nat) : List Piece → Option (Mode × Nat)
  | [] => none
  | p :: ps => if p.closed then unclosed? (offset + p.bytes.length) ps else some (p.mode, offset)

/-- A lexeme of a normalized source, on the line of its first byte. -/
def Placed.lexeme (text : List UInt8) (l : Placed) : Lexeme :=
  ⟨l.bytes, UInt32.ofNat (1 + (text.take l.offset).count Byte.lf)⟩

/-- The lexemes of a source, each on the line of its first byte. -/
def lexemesOf (source : List UInt8) : List Lexeme :=
  (placed 0 (pieces (normalize source))).map (Placed.lexeme (normalize source))

/-- A piece that is not closed is an opener with a body in which no closer counts, and
runs into the end of the source. -/
theorem Piece.front_of_not_closed (h : (front b rest).1.closed = false) :
    ∃ (d : Delimiter) (body : List UInt8), b :: rest = d.opener ++ body ∧
      d.close? [] body = none ∧ d.mode.swallowsInput = true ∧
        front b rest = (⟨d.mode, d.opener ++ body, [], false⟩, []) := by
  have hspec := front_spec b rest
  generalize front b rest = found at h hspec ⊢
  obtain ⟨p, behind⟩ := found
  cases hspec with
  | @unclosed d body hs hclose =>
    have hswallows : d.mode.swallowsInput = true := by simpa using h
    refine ⟨d, body, hs, hclose, hswallows, ?_⟩
    rw [hswallows]
    rfl
  | closed | char | number | word | blank | symbol => cases h

end ScalaLex
