import ScalaLex.Proofs.Dispatch

/-!
# Where lexemes lie

A lexeme stands in the normalized source at its offset (`drop_eq_of_mem_placed`), the
offsets of successive lexemes increase (`pairwise_placed`), and no byte of a lexeme is blank
(`Piece.isBlank_of_mem_lexeme_front`). At the offset of a construct that is left open stands its
opener, and no closer that counts comes behind it (`opener_of_unclosed?`).
-/

namespace ScalaLex

variable {ps : List Piece} {offset : Nat} {l : Placed} {b c : UInt8} {w s rest : List UInt8}

/-- A placed lexeme is that of one of the pieces. -/
theorem exists_of_mem_placed (h : l ∈ placed offset ps) : ∃ before p after,
    ps = before ++ p :: after ∧ p.lexeme ≠ [] ∧ l.bytes = p.lexeme ∧
      l.offset = offset + (before.flatMap Piece.bytes).length + p.skipped.length := by
  induction ps generalizing offset with
  | nil => cases h
  | cons p ps ih =>
    have hlater : l ∈ placed (offset + p.bytes.length) ps → ∃ before q after,
        p :: ps = before ++ q :: after ∧ q.lexeme ≠ [] ∧ l.bytes = q.lexeme ∧
          l.offset = offset + (before.flatMap Piece.bytes).length + q.skipped.length := by
      intro hl
      obtain ⟨before, q, after, rfl, hne, hbytes, hoffset⟩ := ih hl
      refine ⟨p :: before, q, after, rfl, hne, hbytes, ?_⟩
      rw [hoffset, List.flatMap_cons, List.length_append, Nat.add_assoc offset]
    rw [placed] at h
    by_cases hempty : p.lexeme.isEmpty = true
    · rw [if_pos hempty] at h
      exact hlater h
    · rw [if_neg hempty] at h
      rcases List.mem_cons.1 h with rfl | h
      · refine ⟨[], p, ps, rfl, ?_, rfl, rfl⟩
        rwa [List.isEmpty_iff] at hempty
      · exact hlater h

/-- A lexeme stands at its offset. -/
theorem drop_eq_of_mem_placed (h : l ∈ placed 0 ps) : l.bytes ≠ [] ∧
    ∃ rest, (ps.flatMap Piece.bytes).drop l.offset = l.bytes ++ rest := by
  obtain ⟨before, p, after, rfl, hne, hbytes, hoffset⟩ := exists_of_mem_placed h
  refine ⟨by rwa [hbytes], after.flatMap Piece.bytes, ?_⟩
  rw [hbytes, hoffset, Nat.zero_add, List.flatMap_append, ← List.drop_drop, List.drop_left,
    List.flatMap_cons, Piece.bytes, List.append_assoc, List.drop_left]

/-- Lexemes come in the order of their offsets. -/
theorem pairwise_placed (offset : Nat) (ps : List Piece) :
    (placed offset ps).Pairwise fun l l' => l.offset < l'.offset := by
  induction ps generalizing offset with
  | nil => exact .nil
  | cons p ps ih =>
    rw [placed]
    split
    · exact ih _
    · rename_i hempty
      refine List.pairwise_cons.2 ⟨?_, ih _⟩
      intro l hl
      obtain ⟨before, q, after, -, -, -, hoffset⟩ := exists_of_mem_placed hl
      have hpos : 0 < p.lexeme.length := by
        rwa [List.length_pos_iff, Ne, ← List.isEmpty_iff]
      rw [hoffset, Piece.bytes, List.length_append]
      dsimp only
      omega

/-- Placing drops empty lexemes only. -/
theorem map_bytes_placed (offset : Nat) (ps : List Piece) : (placed offset ps).map Placed.bytes =
    (ps.map Piece.lexeme).filter fun w => !w.isEmpty := by
  induction ps generalizing offset with
  | nil => rfl
  | cons p ps ih =>
    rw [placed, List.map_cons]
    cases hempty : p.lexeme.isEmpty with
    | true => rw [if_pos rfl, ih, List.filter_cons_of_neg (by simp [hempty])]
    | false =>
      rw [if_neg Bool.false_ne_true, List.map_cons, ih, List.filter_cons_of_pos (by simp [hempty])]

/-! ## All bytes of a lexeme -/

/-- A byte that can stand in a number. -/
def Byte.isNumberPart (c : UInt8) : Bool := isNumeric c || isSign c

theorem isNumberPart_of_mem_numberRun {before : UInt8} (h : c ∈ numberRun before s) :
    Byte.isNumberPart c = true := by
  induction s generalizing before with
  | nil => cases h
  | cons b s ih =>
    rw [numberRun] at h
    split at h
    · rename_i hb
      rcases List.mem_cons.1 h with rfl | h
      · simp only [Byte.isNumberPart, Bool.or_eq_true, Bool.and_eq_true] at hb ⊢
        exact hb.imp_right And.left
      · exact ih h
    · cases h

theorem isNumberPart_of_mem_number (hb : Byte.isDigit b = true)
    (h : c ∈ b :: numberRun b rest) : Byte.isNumberPart c = true := by
  rcases List.mem_cons.1 h with rfl | h
  · simp [Byte.isNumberPart, Byte.isNumeric, hb]
  · exact isNumberPart_of_mem_numberRun h

theorem Byte.ne_of_isNumberPart (h : Byte.isNumberPart c = true) :
    c ≠ 0x2F ∧ c ≠ 0x22 ∧ c ≠ 0x27 := by
  refine ⟨?_, ?_, ?_⟩ <;> rintro rfl <;> cases h

theorem Byte.isBlank_of_isNumberPart (h : Byte.isNumberPart c = true) : isBlank c = false := by
  grind [isNumberPart, isNumeric, isSign, isDigit, isExponent, isBlank]

theorem Byte.isBlank_of_isWord (h : Byte.isWord c = true) : isBlank c = false := by
  cases hblank : isBlank c with
  | false => rfl
  | true =>
    rw [isWord_of_isBlank hblank] at h
    cases h

namespace Piece

/-- No byte of a lexeme is blank. -/
theorem isBlank_of_mem_lexeme_front (h : c ∈ (front b rest).1.lexeme) :
    Byte.isBlank c = false := by
  have hword : ∀ s : List UInt8, c ∈ s.takeWhile Byte.isWord → Byte.isBlank c = false :=
    fun s hc => Byte.isBlank_of_isWord (List.all_eq_true.1 List.all_takeWhile c hc)
  have hspec := front_spec b rest
  generalize (front b rest).1 = p, (front b rest).2 = behind at h hspec
  cases hspec with
  | unclosed | closed | blank => cases h
  | char =>
    rcases List.mem_append.1 h with hquote | hbehind
    · rw [List.mem_singleton.1 hquote]
      rfl
    · exact hword _ hbehind
  | number hdigit => exact Byte.isBlank_of_isNumberPart (isNumberPart_of_mem_number hdigit h)
  | word hb =>
    rcases List.mem_cons.1 h with rfl | h
    · exact Byte.isBlank_of_isWord hb
    · exact hword _ h
  | symbol _ hclass =>
    rw [List.mem_singleton.1 h]
    exact (Bool.or_eq_false_iff.1 hclass).2

end Piece

/-! ## The first byte of a lexeme -/

theorem mem_pieces {p : Piece} (h : p ∈ pieces s) : ∃ b rest, p = (Piece.front b rest).1 := by
  fun_induction pieces s with
  | case1 => cases h
  | case2 b rest ih =>
    rcases List.mem_cons.1 h with rfl | h
    · exact ⟨b, rest, rfl⟩
    · exact ih h

theorem Piece.isBlank_of_lexeme_front (h : (front b rest).1.lexeme = c :: w) :
    Byte.isBlank c = false := by
  have hmem : c ∈ (front b rest).1.lexeme := by
    rw [h]
    exact List.mem_cons_self
  exact isBlank_of_mem_lexeme_front hmem

/-- A lexeme at the front of a source is the closing quote of a character literal, with the
word behind it, or starts with the first byte of the source. -/
theorem Piece.lexeme_front_cases (h : (front b rest).1.lexeme = c :: w) :
    (b = 0x27 ∧ c = 0x27) ∨ (c = b ∧ Byte.isBlank b = false) := by
  have hblank := isBlank_of_lexeme_front h
  have hspec := front_spec b rest
  generalize (front b rest).1 = p, (front b rest).2 = behind at h hspec
  cases hspec with
  | unclosed | closed | blank => cases h
  | char hs => exact Or.inl ⟨(List.cons.inj hs).1, (List.cons.inj h).1.symm⟩
  | number | word | symbol =>
    obtain rfl := (List.cons.inj h).1
    exact Or.inr ⟨rfl, hblank⟩

/-- A placed lexeme is that of the piece at the front of some source. -/
theorem exists_front_of_mem_placed (h : l ∈ placed offset (pieces s)) :
    ∃ b rest c w, l.bytes = c :: w ∧ (Piece.front b rest).1.lexeme = c :: w := by
  obtain ⟨before, p, after, hps, hne, hbytes, -⟩ := exists_of_mem_placed h
  obtain ⟨b, rest, rfl⟩ := mem_pieces (s := s) (p := p) (by simp [hps])
  obtain ⟨c, w, hlexeme⟩ := List.exists_cons_of_ne_nil hne
  exact ⟨b, rest, c, w, hbytes.trans hlexeme, hlexeme⟩

/-- A lexeme starts with a byte that is no blank. -/
theorem isBlank_of_mem_placed (h : l ∈ placed offset (pieces s)) :
    ∃ b w, l.bytes = b :: w ∧ Byte.isBlank b = false := by
  obtain ⟨a, rest, b, w, hbytes, hlexeme⟩ := exists_front_of_mem_placed h
  exact ⟨b, w, hbytes, Piece.isBlank_of_lexeme_front hlexeme⟩

/-! ## The construct that is left open -/

/-- A source ends inside a construct at whose offset its opener stands, with no closer that
counts behind it. -/
theorem opener_of_unclosed? {u : Mode × Nat} (h : unclosed? offset (pieces s) = some u) :
    ∃ (d : Delimiter) (before body : List UInt8), s = before ++ d.opener ++ body ∧
      d.close? [] body = none ∧ d.mode.swallowsInput = true ∧
        u = (d.mode, offset + before.length) := by
  fun_induction pieces s generalizing offset with
  | case1 => cases h
  | case2 b rest ih =>
    rw [unclosed?] at h
    by_cases hclosed : (Piece.front b rest).1.closed = true
    · rw [if_pos hclosed] at h
      obtain ⟨d, before, body, hs, hnone, hmode, hu⟩ := ih h
      refine ⟨d, (Piece.front b rest).1.bytes ++ before, body, ?_, hnone, hmode, ?_⟩
      · rw [← Piece.bytes_front b rest, hs]
        simp only [List.append_assoc]
      · rw [hu, List.length_append, Nat.add_assoc]
    · rw [if_neg hclosed] at h
      rw [Bool.not_eq_true] at hclosed
      obtain ⟨d, body, hs, hnone, hswallows, hfront⟩ := Piece.front_of_not_closed hclosed
      refine ⟨d, [], body, by rw [hs]; rfl, hnone, hswallows, ?_⟩
      rw [← Option.some.inj h, hfront]
      rfl

end ScalaLex
