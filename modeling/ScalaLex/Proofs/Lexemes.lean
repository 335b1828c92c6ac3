import ScalaLex.Proofs.LineEndings
import ScalaLex.Proofs.Reading

/-!
# The lexemes of a scan

A scan finishes exactly the lexemes that lie in the pieces of the normalized source, each
on the line of its first byte (`lexemes_scan`), and ends inside the piece that has no
closer, if there is one (`unterminated_scan`). So the tokens of a scan are what joining
operators makes of those lexemes, classified one by one (`tokens_parse`).
-/

namespace ScalaLex

variable {source : List UInt8} {o : Progress} {b : UInt8} {reserved : Bool}

/-! ## Classes -/

/-- The class by the first byte, and for a word by whether it is in the table. -/
def kindOf (b : UInt8) (reserved : Bool) : Kind :=
  if Byte.isLetter b || b == 0x5F then if reserved then .reserved else .identifier
  else if Byte.isDigit b then .literal
  else .operator

theorem kindOf_eq_operator_iff : kindOf b reserved = .operator ↔
    (Byte.isLetter b || b == 0x5F || Byte.isDigit b) = false := by
  rw [kindOf]
  cases Byte.isLetter b || b == 0x5F <;> cases Byte.isDigit b <;> cases reserved <;> decide

/-- Bytes that are not all blank have a class. -/
theorem classify?_cons (b : UInt8) (w : List UInt8) : classify? (b :: w) =
    if (b :: w).all Byte.isBlank then none
    else some (kindOf b ((Utf8.decode? (b :: w)).any ReservedWords.contains)) := by
  rw [classify?, kindOf]
  cases Utf8.decode? (b :: w) with
  | none =>
    dsimp only [Option.any]
    repeat' split
    all_goals first | rfl | contradiction
  | some word =>
    dsimp only [Option.any]
    repeat' split
    all_goals rfl

theorem classify?_of_not_blank (h : Byte.isBlank b = false) (w : List UInt8) :
    classify? (b :: w) =
      some (kindOf b ((Utf8.decode? (b :: w)).any ReservedWords.contains)) := by
  rw [classify?_cons, List.all_cons, h, Bool.false_and, if_neg Bool.false_ne_true]

theorem classify?_eq_operator_iff (hb : Byte.isBlank b = false) (w : List UInt8) :
    classify? (b :: w) = some .operator ↔
      (Byte.isLetter b || b == 0x5F || Byte.isDigit b) = false := by
  rw [classify?_of_not_blank hb, Option.some_inj, kindOf_eq_operator_iff]

/-! ## Lexemes of a scan -/

/-- Adding up pieces finishes their lexemes. -/
theorem foldl_add_finished (ps : List Piece) (before : List UInt8)
    (hline : o.line = UInt32.ofNat (1 + before.count Byte.lf)) :
    (ps.foldl Progress.add o).finished =
      ((placed before.length ps).map
        (Placed.lexeme (before ++ ps.flatMap Piece.bytes))).reverse ++ o.finished := by
  induction ps generalizing o before with
  | nil => rfl
  | cons p ps ih =>
    have hnext : (o.add p).line = UInt32.ofNat (1 + (before ++ p.bytes).count Byte.lf) := by
      rw [List.count_append, ← Nat.add_assoc, UInt32.ofNat_add, ← hline]
      rfl
    rw [List.foldl_cons, ih (before ++ p.bytes) hnext, List.length_append, List.append_assoc,
      List.flatMap_cons, placed]
    cases hlexeme : p.lexeme with
    | nil =>
      have hfinished : (o.add p).finished = o.finished := by rw [Progress.add, hlexeme]; rfl
      rw [hfinished]
      rfl
    | cons b w =>
      have htake : (before ++ (p.bytes ++ ps.flatMap Piece.bytes)).take
          (before.length + p.skipped.length) = before ++ p.skipped := by
        rw [Piece.bytes, ← List.append_assoc, ← List.append_assoc, List.append_assoc _ p.lexeme,
          ← List.length_append, List.take_left']
        rfl
      have hfirst : Placed.lexeme (before ++ (p.bytes ++ ps.flatMap Piece.bytes))
          ⟨p.lexeme, before.length + p.skipped.length⟩ =
            ⟨p.lexeme, o.line + UInt32.ofNat (p.skipped.count Byte.lf)⟩ := by
        rw [Placed.lexeme, htake, List.count_append, ← Nat.add_assoc, UInt32.ofNat_add, ← hline]
      have hne : p.lexeme ≠ [] := by simp [hlexeme]
      rw [if_neg (by simp), List.map_cons, List.reverse_cons, List.append_assoc, ← hlexeme, hfirst,
        Progress.add_finished hne]
      rfl

/-- Adding up the pieces of a source ends inside the one that has no closer. -/
theorem foldl_add_unterminated (s before : List UInt8)
    (hline : o.line = UInt32.ofNat (1 + before.count Byte.lf)) (hnone : o.unterminated? = none) :
    ((pieces s).foldl Progress.add o).unterminated? =
      (unclosed? before.length (pieces s)).map fun u =>
        ⟨u.1, UInt32.ofNat (1 + ((before ++ s).take u.2).count Byte.lf)⟩ := by
  fun_induction pieces s generalizing o before with
  | case1 => exact hnone
  | case2 b rest ih =>
    rw [List.foldl_cons, unclosed?]
    cases hclosed : (Piece.front b rest).1.closed with
    | true =>
      have hbytes := Piece.bytes_front b rest
      have hnext : (o.add (Piece.front b rest).1).line =
          UInt32.ofNat (1 + (before ++ (Piece.front b rest).1.bytes).count Byte.lf) := by
        rw [List.count_append, ← Nat.add_assoc, UInt32.ofNat_add, ← hline]
        rfl
      have hopen : (o.add (Piece.front b rest).1).unterminated? = none := by
        rw [Progress.add, hclosed]
        rfl
      rw [ih _ hnext hopen, List.length_append, List.append_assoc, hbytes]
      rfl
    | false =>
      obtain ⟨d, body, -, -, -, hfront⟩ := Piece.front_of_not_closed hclosed
      rw [hfront, pieces, List.foldl_nil, Progress.add]
      simp [hline]

/-- A scan adds up the pieces of the normalized source. -/
theorem progress_scan (source : List UInt8) : (Machine.scan source).progress =
    (pieces (normalize source)).foldl Progress.add (({} : Machine).progress) := by
  rw [← Machine.scan_normalize, Machine.scan]
  exact Machine.progress_run rfl rfl fun h => ne_cr_of_mem_normalize h rfl

/-- The lexemes of a scan are those of its source. -/
theorem lexemes_scan (source : List UInt8) : (Machine.scan source).lexemes = lexemesOf source := by
  have hfinished : (Machine.scan source).finished = _ :=
    (congrArg Progress.finished (progress_scan source)).trans (foldl_add_finished _ [] rfl)
  rw [flatMap_bytes_pieces] at hfinished
  rw [Machine.lexemes, hfinished, lexemesOf, List.reverse_append, List.reverse_reverse]
  rfl

/-- A scan ends inside the piece that needs a closer and has none. -/
theorem unterminated_scan (source : List UInt8) : (Machine.scan source).unterminated? =
    (unclosed? 0 (pieces (normalize source))).map fun u =>
      ⟨u.1, UInt32.ofNat (1 + ((normalize source).take u.2).count Byte.lf)⟩ := by
  have hopen := congrArg Progress.unterminated? (progress_scan source)
  rwa [foldl_add_unterminated _ [] rfl rfl] at hopen

theorem tokens_last_parse (s : Scanner) (elapsed : Span) (source : List UInt8) :
    (s.parse elapsed source).value.last.tokens =
      (joinOperators (Machine.scan source).tokens).tokens := rfl

/-- The tokens of a source are its lexemes, classified one by one, with adjacent operators
joined. -/
theorem tokens_parse (s : Scanner) (elapsed : Span) (source : List UInt8) :
    (s.parse elapsed source).value.last.tokens =
      (joinOperators ((lexemesOf source).filterMap Lexeme.token?)).tokens := by
  rw [Scanner.last_parse, Scan.ofSource, Scan.ofMachine, Machine.tokens, lexemes_scan]

end ScalaLex
