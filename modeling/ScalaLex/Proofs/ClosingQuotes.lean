import Mathlib
import ScalaLex.Proofs.Lexemes
import ScalaLex.Proofs.Placing

/-!
# Closing quotes

The lexemes that start with a single quote are those of the character literals that have a
closer, one for each and in their order (`filter_lexemes_scan`). Such a lexeme is the closing
quote and the word right behind it, so it is the quote alone exactly where no word follows
(`closing_quotes_scan`). A word that does follow is no lexeme of its own
(`closing_quote_takes_word`).
-/

namespace ScalaLex

variable {b : UInt8} {s rest behind : List UInt8}

/-- What stands behind the closing quote of a character literal at the front of a source. -/
def behindChar? (b : UInt8) (rest : List UInt8) : Option (List UInt8) :=
  if b == 0x27 then (Delimiter.char.close? [] rest).map Prod.snd else none

/-- What stands behind the closing quote of each character literal of a normalized source. -/
def behindChars : List UInt8 → List (List UInt8)
  | [] => []
  | b :: rest => (behindChar? b rest).toList ++ behindChars (Piece.front b rest).2
termination_by s => s.length
decreasing_by exact Nat.lt_succ_of_le (Piece.length_front_le b rest)

/-- A closing quote and the word right behind it. -/
def closingQuote (behind : List UInt8) : List UInt8 := 0x27 :: behind.takeWhile Byte.isWord

/-- The bytes start with a single quote. -/
def startsWithQuote (w : List UInt8) : Bool := w.head? == some 0x27

theorem closingQuote_eq_singleton_iff :
    closingQuote behind = [0x27] ↔ ∀ b ∈ behind.head?, Byte.isWord b = false := by
  cases behind with
  | nil => simp [closingQuote]
  | cons b behind => cases hb : Byte.isWord b <;> simp [closingQuote, hb]

/-! ## Lexemes that start with a quote -/

/-- A character literal has a lexeme if it has a closer. -/
theorem lexeme_front_char (rest : List UInt8) : (Piece.front 0x27 rest).1.lexeme =
    ((Delimiter.char.close? [] rest).map fun found => closingQuote found.2).getD [] := by
  have hfront : Piece.front 0x27 rest = Delimiter.char.front rest := rfl
  rw [hfront, Delimiter.front]
  cases Delimiter.char.close? [] rest <;> rfl

/-- No other lexeme starts with a quote. -/
theorem startsWithQuote_lexeme_front (hb : b ≠ 0x27) (rest : List UInt8) :
    startsWithQuote (Piece.front b rest).1.lexeme = false := by
  cases hlexeme : (Piece.front b rest).1.lexeme with
  | nil => rfl
  | cons c w =>
    rcases Piece.lexeme_front_cases hlexeme with ⟨hquote, -⟩ | ⟨rfl, -⟩
    · exact absurd hquote hb
    · simp [startsWithQuote, hb]

/-- A lexeme that starts with a quote is that of a character literal. -/
theorem filter_lexeme_front (b : UInt8) (rest : List UInt8) :
    [(Piece.front b rest).1.lexeme].filter startsWithQuote =
      ((behindChar? b rest).map closingQuote).toList := by
  by_cases hb : b = 0x27
  · subst hb
    rw [lexeme_front_char, behindChar?, if_pos (beq_self_eq_true _), Option.map_map]
    cases Delimiter.char.close? [] rest <;> rfl
  · rw [behindChar?, if_neg (by simpa using hb),
      List.filter_cons_of_neg (by rw [startsWithQuote_lexeme_front hb]; decide)]
    rfl

theorem filter_lexeme_pieces (s : List UInt8) :
    ((pieces s).map Piece.lexeme).filter startsWithQuote = (behindChars s).map closingQuote := by
  fun_induction pieces s with
  | case1 => rw [behindChars]; rfl
  | case2 b rest ih =>
    rw [behindChars, List.map_cons, List.map_append, ← List.singleton_append, List.filter_append,
      filter_lexeme_front, ih, Option.toList_map]

/-- Placing keeps the lexemes that start with a quote. -/
theorem filter_bytes_placed (offset : Nat) (ps : List Piece) :
    ((placed offset ps).map Placed.bytes).filter startsWithQuote =
      (ps.map Piece.lexeme).filter startsWithQuote := by
  rw [map_bytes_placed, List.filter_filter]
  refine List.filter_congr fun w _ => ?_
  cases w <;> simp [startsWithQuote]

/-- The lexemes of a scan that start with a quote are the closing quotes of its character
literals, each with the word right behind it. -/
theorem filter_lexemes_scan (source : List UInt8) :
    ((Machine.scan source).lexemes.map Lexeme.bytes).filter startsWithQuote =
      (behindChars (normalize source)).map closingQuote := by
  rw [lexemes_scan, lexemesOf, List.map_map, ← filter_lexeme_pieces, ← filter_bytes_placed 0]
  rfl

/-- Every character literal with a closer has a lexeme of its own, and no other lexeme starts
with a quote. It is the closing quote alone for every one of them exactly if no word comes
right behind a closing quote. -/
theorem closing_quotes_scan (source : List UInt8) :
    ((Machine.scan source).lexemes.map Lexeme.bytes).filter startsWithQuote =
      (behindChars (normalize source)).map closingQuote ∧
    ((∀ l ∈ (Machine.scan source).lexemes, l.bytes.head? = some 0x27 → l.bytes = [0x27]) ↔
      ∀ behind ∈ behindChars (normalize source), ∀ b ∈ behind.head?, Byte.isWord b = false) := by
  have hquotes := filter_lexemes_scan source
  refine ⟨hquotes, ?_⟩
  constructor
  · intro h behind hmem
    have hclosing := List.mem_map_of_mem (f := closingQuote) hmem
    rw [← hquotes, List.mem_filter] at hclosing
    obtain ⟨l, hl, hbytes⟩ := List.mem_map.1 hclosing.1
    rw [← closingQuote_eq_singleton_iff, ← hbytes]
    exact h l hl (by rw [hbytes]; rfl)
  · intro h l hl hfirst
    have hmem : l.bytes ∈ ((Machine.scan source).lexemes.map Lexeme.bytes).filter
        startsWithQuote :=
      List.mem_filter.2 ⟨List.mem_map_of_mem hl, by simp [startsWithQuote, hfirst]⟩
    rw [hquotes] at hmem
    obtain ⟨behind, hbehind, hbytes⟩ := List.mem_map.1 hmem
    rw [← hbytes]
    exact closingQuote_eq_singleton_iff.2 (h behind hbehind)

/-- The closing quote of a character literal and the word behind it are one token. -/
theorem closing_quote_takes_word :
    (Machine.scan [0x27, 0x61, 0x27, 0x62]).tokens = [⟨.operator, "'b", 1⟩] ∧
    ¬∀ (source : List UInt8), ∀ l ∈ (Machine.scan source).lexemes,
      l.bytes.head? = some 0x27 → l.bytes = [0x27] := by
  have hlexemes : (Machine.scan [0x27, 0x61, 0x27, 0x62]).lexemes = [⟨[0x27, 0x62], 1⟩] := by cbv
  refine ⟨by cbv, fun h => ?_⟩
  have hlone := h [0x27, 0x61, 0x27, 0x62] ⟨[0x27, 0x62], 1⟩ (by rw [hlexemes]; simp) rfl
  cases hlone

end ScalaLex
