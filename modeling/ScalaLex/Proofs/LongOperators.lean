import ScalaLex.Proofs.DecodedText
import ScalaLex.Proofs.NormalForm
import ScalaLex.Proofs.TokenLines

/-!
# Operators longer than a byte

Counts have no access to the blocks that tokens were joined from. They take every operator
whose text is longer than one byte for a joined one (`mergedOperators_ofTokens`), and an
operator that is joined from several lexemes is longer than one byte. But so is a lone lexeme
that is a word led by a byte above 127, or a closing quote with a word behind it
(`isLongOperator_token`), and no other one.

So the figure is the number of operators that were joined from several lexemes and of those
that were such a lexeme before (`mergedOperators_parse`). A single letter is one of them
(`long_operator_of_one_lexeme`).
-/

namespace ScalaLex

variable {source rest w : List UInt8} {b c : UInt8} {t : Token} {l : Placed}

/-! ## Lone lexemes -/

/-- The token is an operator whose text is longer than one byte. -/
def Token.isLongOperator (t : Token) : Bool := t.isOperator && decide (1 < t.value.utf8ByteSize)

/-- The lexeme is a word led by a byte above 127, or a closing quote with a word behind it. -/
def isLongSymbol : List UInt8 → Bool
  | [] => false
  | b :: w => 127 < b || (b == 0x27 && !w.isEmpty)

/-- The counts take an operator for a joined one if its text is longer than one byte. -/
theorem mergedOperators_ofTokens (ts : List Token) :
    (Counts.ofTokens ts).mergedOperators = ts.countP Token.isLongOperator := by
  induction ts with
  | nil => rfl
  | cons t ts ih =>
    have hone : (Counts.ofTokens [t]).mergedOperators = [t].countP Token.isLongOperator := by
      obtain ⟨kind, value, line⟩ := t
      cases kind <;> simp [Counts.ofTokens, Counts.ofToken, Counts.add, Token.isLongOperator,
        Token.isOperator, List.countP_singleton]
    rw [← List.singleton_append, Counts.ofTokens_append, List.countP_append, ← hone, ← ih]
    rfl

/-- Only a quote and a word go on behind a symbol that a lexeme starts with. -/
theorem Piece.eq_nil_of_lexeme_front (hword : Byte.isWord b = false)
    (hdigit : Byte.isDigit b = false) (hquote : b ≠ 0x27)
    (h : (front b rest).1.lexeme = c :: w) : w = [] := by
  have hspec := front_spec b rest
  generalize (front b rest).1 = p, (front b rest).2 = behind at h hspec
  cases hspec with
  | unclosed | closed | blank => cases h
  | char hs => exact absurd (List.cons.inj hs).1 hquote
  | number h' => rw [hdigit] at h'; cases h'
  | word h' => rw [hword] at h'; cases h'
  | symbol => exact (List.cons.inj h).2.symm

/-- A lone lexeme is an operator longer than one byte exactly if it is a long symbol. -/
theorem isLongOperator_token (h : l ∈ lexemesIn source) :
    (l.token source).isLongOperator = isLongSymbol l.bytes := by
  have hclass := classify?_of_mem h
  obtain ⟨p, hp, rfl⟩ := List.mem_map.1 h
  obtain ⟨b, rest, c, w, hbytes, hlexeme⟩ := exists_front_of_mem_placed hp
  have hblank := Piece.isBlank_of_lexeme_front hlexeme
  rw [Token.isLongOperator, Placed.token, Token.isOperator, hbytes, isLongSymbol]
  rw [hbytes] at hclass
  rw [Bool.eq_iff_iff, Bool.and_eq_true, beq_iff_eq, decide_eq_true_iff,
    Utf8.one_lt_utf8ByteSize_decode_iff, ← Option.some_inj, ← hclass,
    classify?_eq_operator_iff hblank]
  by_cases hquote : c = 0x27
  · subst hquote
    cases w <;> simp [Byte.isLetter, Byte.isDigit]
  have hlong : (127 < c || (c == 0x27 && !w.isEmpty)) = decide (127 < c) := by simp [hquote]
  rw [hlong, decide_eq_true_iff]
  by_cases hhigh : 127 < c
  · have hle : 0x80 ≤ c.toNat := UInt8.lt_iff_toNat_lt.1 hhigh
    refine iff_of_true ⟨?_, Or.inl hle⟩ hhigh
    grind [Byte.isLetter, Byte.isDigit]
  · refine iff_of_false ?_ hhigh
    rintro ⟨hclass, hsize⟩
    simp only [Bool.or_eq_false_iff] at hclass
    have hword : Byte.isWord c = false := by simp [Byte.isWord, hclass, hhigh]
    have hlow : c.toNat < 0x80 := Nat.lt_succ_of_le (UInt8.le_iff_toNat_le.1 (UInt8.not_lt.1 hhigh))
    -- a symbol is a lexeme of its own
    rcases Piece.lexeme_front_cases hlexeme with ⟨-, hc⟩ | ⟨rfl, -⟩
    · exact hquote hc
    · have hnil := Piece.eq_nil_of_lexeme_front hword hclass.2 hquote hlexeme
      exact hsize.elim (Nat.not_le.2 hlow) (absurd hnil)

/-! ## Blocks -/

/-- The block is a single lexeme, and that is a long symbol. -/
def isLoneLong : List Placed → Bool
  | [l] => isLongSymbol l.bytes
  | _ => false

/-- The tokens `out` are joined from consecutive blocks of lexemes of a source. -/
def JoinedFromLexemes (source : List UInt8) (blocks : List (List Placed)) (out : List Token) :
    Prop :=
  List.Forall₂ (fun block t => JoinedFrom (block.map (Placed.token source)) t) blocks out

theorem utf8ByteSize_token_pos (h : l ∈ lexemesIn source) :
    0 < (l.token source).value.utf8ByteSize := by
  obtain ⟨b, w, hbytes, -, -⟩ := mem_lexemesIn h
  refine Utf8.utf8ByteSize_decode_pos ?_
  rw [hbytes]
  exact List.cons_ne_nil b w

theorem isLongOperator_of_joinedFrom {block : List Placed}
    (h : JoinedFrom (block.map (Placed.token source)) t)
    (hmem : ∀ l ∈ block, l ∈ lexemesIn source) :
    t.isLongOperator = (decide (1 < block.length) || isLoneLong block) := by
  match block with
  | [] =>
    obtain ⟨first, others, hblock, -⟩ := h.line
    cases hblock
  | [l] =>
    rw [h.eq_of_singleton, isLongOperator_token (hmem l List.mem_cons_self)]
    rfl
  | l :: l' :: ls =>
    have hkind : t.kind = .operator := by
      by_contra hkind
      have hlen := congrArg List.length (h.alone hkind)
      simp at hlen
    have hfirst := utf8ByteSize_token_pos (hmem l (by simp))
    have hsecond := utf8ByteSize_token_pos (hmem l' (by simp))
    have hlong : 1 < t.value.utf8ByteSize := by
      rw [h.value, List.map_cons, List.map_cons, List.map_cons, List.map_cons, String.join_cons,
        String.join_cons, String.utf8ByteSize_append, String.utf8ByteSize_append]
      omega
    simp [Token.isLongOperator, Token.isOperator, hkind, hlong]

theorem countP_isLongOperator {blocks : List (List Placed)} {out : List Token}
    (h : JoinedFromLexemes source blocks out)
    (hmem : ∀ l ∈ blocks.flatten, l ∈ lexemesIn source) :
    out.countP Token.isLongOperator =
      blocks.countP (fun block => decide (1 < block.length)) + blocks.countP isLoneLong := by
  induction h with
  | nil => rfl
  | @cons block t blocks out hblock _ ih =>
    rw [List.flatten_cons, List.forall_mem_append] at hmem
    rw [List.countP_cons, List.countP_cons, List.countP_cons, ih hmem.2,
      isLongOperator_of_joinedFrom hblock hmem.1]
    match block with
    | [] => simp [isLoneLong]
    | [l] => cases hl : isLongSymbol l.bytes <;> simp [isLoneLong, hl, Nat.add_assoc]
    | l :: l' :: ls => simp [isLoneLong, Nat.add_right_comm]

/-- The tokens of a scan are joined from consecutive blocks of its lexemes. The figure for joined
operators counts those that are joined from several lexemes, and also the lone lexemes that are
long symbols. So it is the number of operators that are the product of joining exactly if no long
symbol stands alone. -/
theorem mergedOperators_parse (s : Scanner) (elapsed : Span) (source : List UInt8) :
    let out := (s.parse elapsed source).value.last.tokens
    ∃ blocks, blocks.flatten = lexemesIn source ∧ JoinedFromLexemes source blocks out ∧
      (Counts.ofTokens out).mergedOperators =
        blocks.countP (fun block => decide (1 < block.length)) + blocks.countP isLoneLong ∧
      ((Counts.ofTokens out).mergedOperators =
          blocks.countP (fun block => decide (1 < block.length)) ↔
        ∀ block ∈ blocks, isLoneLong block = false) := by
  intro out
  obtain ⟨cut, hflat, hcut⟩ := exists_blocks (Machine.scan source).tokens
  rw [tokens_scan] at hflat
  obtain ⟨blocks, hblocks, rfl⟩ := exists_flatten_of_map_eq hflat.symm
  rw [List.forall₂_map_left_iff] at hcut
  have hjoined : JoinedFromLexemes source blocks out := hcut.imp fun _ _ h => h.joinedFrom
  have hcount : (Counts.ofTokens out).mergedOperators = _ :=
    (mergedOperators_ofTokens out).trans
      (countP_isLongOperator hjoined fun l hl => by rwa [hblocks] at hl)
  refine ⟨blocks, hblocks, hjoined, hcount, ?_⟩
  rw [hcount, Nat.add_eq_left, List.countP_eq_zero]
  simp only [Bool.not_eq_true]

/-- A letter above 127 on its own is counted as an operator that was joined from others. -/
theorem long_operator_of_one_lexeme :
    (Machine.scan [0xC3, 0xA9]).tokens = [⟨.operator, "é", 1⟩] ∧
    (Counts.ofTokens (joinOperators [⟨.operator, "é", 1⟩]).tokens).mergedOperators = 1 ∧
    ¬∀ source : List UInt8, ∃ blocks, blocks.flatten = (Machine.scan source).tokens ∧
      List.Forall₂ JoinedFrom blocks (({} : Scanner).parse {} source).value.last.tokens ∧
      (Counts.ofTokens (({} : Scanner).parse {} source).value.last.tokens).mergedOperators =
        blocks.countP fun block => decide (1 < block.length) := by
  have hraw : (Machine.scan [0xC3, 0xA9]).tokens = [⟨.operator, "é", 1⟩] := by cbv
  have hone : (joinOperators [⟨.operator, "é", 1⟩]).tokens = [⟨.operator, "é", 1⟩] := rfl
  have hcount : (Counts.ofTokens [⟨.operator, "é", 1⟩]).mergedOperators = 1 := by decide
  refine ⟨hraw, hcount, fun h => ?_⟩
  obtain ⟨blocks, hflat, hblocks, hmerged⟩ := h [0xC3, 0xA9]
  rw [tokens_last_parse, hraw, hone] at hblocks hmerged
  rw [hraw] at hflat
  obtain ⟨block, others, -, hnone, rfl⟩ := List.forall₂_cons_right_iff.1 hblocks
  obtain rfl := List.forall₂_nil_right_iff.1 hnone
  rw [List.flatten_cons, List.flatten_nil, List.append_nil] at hflat
  rw [hflat, hcount] at hmerged
  cases hmerged

end ScalaLex
