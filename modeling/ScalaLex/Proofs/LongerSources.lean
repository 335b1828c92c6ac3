import ScalaLex.Proofs.JoinedLists
import ScalaLex.Proofs.Lexemes
import ScalaLex.Proofs.Placing

/-!
# Sources that go on

The front piece of a source that does not reach to its end is the same however the source
goes on (`Piece.front_append`), so a longer source has all the pieces of a shorter one but
the last, in the same places (`exists_pieces_append`). The last piece can become another
one : a word or a number grows, a slash or a closing quote takes in what follows, and an
open construct is closed. It has one lexeme at most. Where the token of that lexeme is no
operator, the piece is a word or a number, and what stands in its place starts with the
same byte and is no operator either (`dropLast_tokens_add_prefix`). That is what joining
operators asks for, so no token but the last one is open to change
(`dropLast_tokens_parse_prefix`).
-/

namespace ScalaLex

variable {b c : UInt8} {s rest inner body after w : List UInt8}

/-! ## The front piece -/

/-- A word that ends before the end of the source ends there in a longer one. -/
theorem takeWhile_isWord_append (h : s.dropWhile Byte.isWord ≠ []) (v : List UInt8) :
    (s ++ v).takeWhile Byte.isWord = s.takeWhile Byte.isWord ∧
      (s ++ v).dropWhile Byte.isWord = s.dropWhile Byte.isWord ++ v := by
  have hpos := List.length_pos_iff.2 h
  have hlen := congrArg List.length (List.takeWhile_append_dropWhile (p := Byte.isWord) (l := s))
  rw [List.length_append] at hlen
  rw [List.takeWhile_append, if_neg (by omega), List.dropWhile_append, if_neg (by simpa using h)]
  exact ⟨rfl, rfl⟩

/-- A number that ends before the end of the source ends there in a longer one. -/
theorem numberRun_append {before : UInt8} (h : s.drop (numberRun before s).length ≠ [])
    (v : List UInt8) : numberRun before (s ++ v) = numberRun before s := by
  induction s generalizing before with
  | nil => exact absurd rfl h
  | cons b rest ih =>
    rw [numberRun] at h ⊢
    rw [List.cons_append, numberRun]
    split
    · rename_i hb
      rw [if_pos hb] at h
      rw [ih h]
    · rfl

namespace Delimiter

variable {d : Delimiter}

/-- Two bytes tell which construct a source starts with. -/
theorem opening?_append (h : rest ≠ []) (b : UInt8) (v : List UInt8) :
    opening? (b :: (rest ++ v)) = opening? (b :: rest) := by
  obtain ⟨c, rest, rfl⟩ := List.exists_cons_of_ne_nil h
  rfl

/-- A closer is recognized by its own bytes. -/
theorem closes_append (h : d.closer.length ≤ after.length) (before v : List UInt8) :
    d.closes before (after ++ v) = d.closes before after := by
  have hprefix : d.closer.isPrefixOf (after ++ v) = d.closer.isPrefixOf after := by
    rw [Bool.eq_iff_iff, List.isPrefixOf_iff_prefix, List.isPrefixOf_iff_prefix]
    exact ⟨fun hv => List.prefix_of_prefix_length_le hv (List.prefix_append _ _) h,
      fun hafter => hafter.trans (List.prefix_append _ _)⟩
  rw [closes, closes, hprefix]

/-- The first closer that counts stays the first. -/
theorem close?_append (h : d.close? [] s = some (inner, rest)) (v : List UInt8) :
    d.close? [] (s ++ v) = some (inner, rest ++ v) := by
  obtain ⟨rfl, hend, hfirst⟩ := close?_eq_some_iff.1 h
  refine close?_eq_some_iff.2 ⟨by simp, ?_, ?_⟩
  · rw [← List.append_assoc, closes_append (by simp), hend]
  · intro x y hxy hx
    obtain ⟨z, hz, rfl⟩ : ∃ z, inner ++ d.closer ++ rest = x ++ z ∧ y = z ++ v := by
      rcases List.append_eq_append_iff.1 hxy with ⟨z, rfl, -⟩ | h
      · simp only [List.length_append] at hx
        omega
      · exact h
    -- the closer still lies ahead of every byte of the body
    have hlen := congrArg List.length hz
    simp only [List.length_append] at hlen
    rw [closes_append (by omega), hfirst x z hz hx]

/-- A construct that ends before the end of the source ends there in a longer one. -/
theorem front_append (h : (d.front body).2 ≠ []) (v : List UInt8) :
    d.front (body ++ v) = ((d.front body).1, (d.front body).2 ++ v) := by
  unfold front at h ⊢
  cases hclose : d.close? [] body with
  | none =>
    rw [hclose] at h
    exact absurd rfl h
  | some found =>
    obtain ⟨inner, rest⟩ := found
    rw [hclose] at h
    rw [close?_append hclose]
    cases d with
    | char =>
      obtain ⟨htake, hdrop⟩ := takeWhile_isWord_append h v
      dsimp only
      rw [htake, hdrop]
    | blockComment | lineComment | string => rfl

end Delimiter

namespace Piece

/-- A piece that ends before the end of the source is the same in a longer one. -/
theorem front_append (h : (front b rest).2 ≠ []) (v : List UInt8) :
    front b (rest ++ v) = ((front b rest).1, (front b rest).2 ++ v) := by
  have hrest : rest ≠ [] := by
    rintro rfl
    exact h (List.eq_nil_of_length_eq_zero (Nat.le_zero.1 (length_front_le b [])))
  unfold front at h ⊢
  rw [Delimiter.opening?_append hrest]
  cases hopen : Delimiter.opening? (b :: rest) with
  | some d =>
    rw [hopen] at h
    have hopener : d.opener <+: b :: rest := ⟨_, Delimiter.append_drop_of_opening? hopen⟩
    dsimp only
    rw [← List.cons_append, List.drop_append_of_le_length hopener.length_le,
      Delimiter.front_append h]
  | none =>
    rw [hopen] at h
    dsimp only at h ⊢
    by_cases hdigit : Byte.isDigit b = true
    · rw [if_pos hdigit] at h
      have hrun : numberRun b rest <+: rest := ⟨_, numberRun_append_drop b rest⟩
      rw [if_pos hdigit, if_pos hdigit, numberRun_append h,
        List.drop_append_of_le_length hrun.length_le]
    · rw [if_neg hdigit] at h
      rw [if_neg hdigit, if_neg hdigit]
      by_cases hword : Byte.isWord b = true
      · rw [if_pos hword] at h
        obtain ⟨htake, hdrop⟩ := takeWhile_isWord_append h v
        rw [if_pos hword, if_pos hword, htake, hdrop]
      · rw [if_neg hword, if_neg hword]
        split <;> rfl

end Piece

/-- A source and a longer one have the same pieces up to the last piece of the shorter. -/
theorem exists_pieces_append (s v : List UInt8) : ∃ ps t,
    pieces s = ps ++ pieces t ∧ pieces (s ++ v) = ps ++ pieces (t ++ v) ∧
      (t = [] ∨ ∃ b rest, t = b :: rest ∧ (Piece.front b rest).2 = []) := by
  fun_induction pieces s with
  | case1 => exact ⟨[], [], by rw [pieces]; rfl, rfl, Or.inl rfl⟩
  | case2 b rest ih =>
    -- a piece that reaches to the end of the source is left to become another one
    by_cases hrest : (Piece.front b rest).2 = []
    · exact ⟨[], b :: rest, by rw [pieces]; rfl, rfl, Or.inr ⟨b, rest, rfl, hrest⟩⟩
    · obtain ⟨ps, t, hs, hsv, ht⟩ := ih
      refine ⟨(Piece.front b rest).1 :: ps, t, by rw [hs]; rfl, ?_, ht⟩
      rw [List.cons_append, pieces, Piece.front_append hrest, hsv]
      rfl

/-! ## The token of the last piece -/

/-- The first byte of a lexeme tells whether its token is an operator. -/
theorem Lexeme.isOperator_of_token? {l : Lexeme} {t : Token} (h : l.token? = some t) :
    ∃ b w, l.bytes = b :: w ∧
      t.isOperator = !(Byte.isLetter b || b == 0x5F || Byte.isDigit b) := by
  obtain ⟨kind, hkind, rfl⟩ := Option.map_eq_some_iff.1 h
  cases hbytes : l.bytes with
  | nil =>
    rw [hbytes] at hkind
    cases hkind
  | cons b w =>
    refine ⟨b, w, rfl, ?_⟩
    rw [hbytes, classify?_cons] at hkind
    split at hkind
    · cases hkind
    · obtain rfl := Option.some.inj hkind
      rw [Token.isOperator, Bool.eq_iff_iff, beq_iff_eq, kindOf_eq_operator_iff, Bool.not_eq_true']

/-- The lexeme of a word or a number starts with the first byte of the source. -/
theorem Piece.head?_lexeme_front (h : (Byte.isWord b || Byte.isDigit b) = true)
    (rest : List UInt8) : (front b rest).1.lexeme.head? = some b := by
  rw [Bool.or_eq_true] at h
  rcases h with hword | hdigit
  · rw [front_word hword]
    rfl
  · rw [front_number hdigit]
    rfl

/-- The lexeme of any other piece is a symbol or starts with a closing quote. -/
theorem Piece.not_word_of_lexeme_front (h : (Byte.isWord b || Byte.isDigit b) = false)
    (hlexeme : (front b rest).1.lexeme = c :: w) : (Byte.isWord c || Byte.isDigit c) = false := by
  rcases lexeme_front_cases hlexeme with ⟨-, rfl⟩ | ⟨rfl, -⟩
  · rfl
  · exact h

namespace Progress

/-- The tokens of the finished lexemes. -/
def tokens (o : Progress) : List Token := o.finished.reverse.filterMap Lexeme.token?

/-- The lexeme of a piece that goes on behind `o`. -/
def lexeme (o : Progress) (p : Piece) : Lexeme :=
  ⟨p.lexeme, o.line + UInt32.ofNat (p.skipped.count Byte.lf)⟩

theorem tokens_add (o : Progress) (p : Piece) :
    (o.add p).tokens = o.tokens ++ (o.lexeme p).token?.toList := by
  cases hp : p.lexeme with
  | nil =>
    have hnone : (o.lexeme p).token? = none := by
      rw [lexeme, Lexeme.token?, hp]
      rfl
    rw [hnone, Option.toList_none, List.append_nil, tokens, add, hp]
    rfl
  | cons c w =>
    rw [tokens, add_finished (by simp [hp]), List.reverse_cons, List.filterMap_append]
    exact congrArg (o.tokens ++ ·) List.filterMap_cons

/-- Further pieces add tokens behind those that there are. -/
theorem tokens_prefix_foldl_add (o : Progress) (ps : List Piece) :
    o.tokens <+: (ps.foldl add o).tokens := by
  induction ps generalizing o with
  | nil => exact List.prefix_refl _
  | cons p ps ih =>
    refine List.IsPrefix.trans ?_ (ih (o.add p))
    rw [tokens_add]
    exact List.prefix_append _ _

end Progress

theorem Machine.tokens_progress (m : Machine) : m.progress.tokens = m.tokens := rfl

/-- Whether the token of a word or a number is an operator is told by the first byte. -/
theorem Progress.exists_token?_front (o : Progress)
    (h : (Byte.isWord b || Byte.isDigit b) = true) (rest : List UInt8) :
    ∃ t, (o.lexeme (Piece.front b rest).1).token? = some t ∧
      t.isOperator = !(Byte.isLetter b || b == 0x5F || Byte.isDigit b) := by
  obtain ⟨w, hw⟩ := List.head?_eq_some_iff.1 (Piece.head?_lexeme_front h rest)
  have hsome : (o.lexeme (Piece.front b rest).1).token?.isSome = true := by
    rw [Lexeme.token?, Option.isSome_map, lexeme, hw,
      classify?_of_not_blank (Piece.isBlank_of_lexeme_front hw)]
    rfl
  obtain ⟨t, ht⟩ := Option.isSome_iff_exists.1 hsome
  obtain ⟨c, w', hbytes, hop⟩ := Lexeme.isOperator_of_token? ht
  obtain ⟨rfl, -⟩ := List.cons.inj (hw.symm.trans hbytes)
  exact ⟨t, ht, hop⟩

/-- The last piece of a source and the one that stands in its place in a longer source give
the same tokens but for the last one, whatever comes behind them. -/
theorem dropLast_tokens_add_prefix (o : Progress) (b : UInt8) (rest v : List UInt8)
    {us : List Token} (h : (o.add (Piece.front b (rest ++ v)).1).tokens <+: us) :
    (joinOperators (o.add (Piece.front b rest).1).tokens).tokens.dropLast <+:
      (joinOperators us).tokens := by
  rw [Progress.tokens_add] at h ⊢
  obtain ⟨us, rfl⟩ := (List.prefix_append _ _).trans h
  rw [List.prefix_append_right_inj] at h
  cases ht : (o.lexeme (Piece.front b rest).1).token? with
  | none =>
    rw [Option.toList_none, List.append_nil]
    exact dropLast_joinOperators_prefix_of_prefix (List.prefix_append _ _)
  | some t =>
    refine dropLast_joinOperators_prefix ?_
    -- a token that is no operator is that of a word or a number
    cases hclass : Byte.isWord b || Byte.isDigit b with
    | false =>
      obtain ⟨c, w, hbytes, hop⟩ := Lexeme.isOperator_of_token? ht
      have hnot := Piece.not_word_of_lexeme_front hclass hbytes
      rw [Byte.isWord] at hnot
      refine Or.inl ?_
      grind
    | true =>
      obtain ⟨t₁, ht₁, hop₁⟩ := o.exists_token?_front hclass rest
      obtain ⟨t₂, ht₂, hop₂⟩ := o.exists_token?_front hclass (rest ++ v)
      obtain rfl := Option.some.inj (ht.symm.trans ht₁)
      rw [ht₂] at h
      obtain ⟨us, rfl⟩ := h
      cases hop : t.isOperator with
      | true => exact Or.inl rfl
      | false =>
        refine Or.inr ?_
        rintro next ⟨⟩
        rw [hop₂, ← hop₁, hop]

/-- What is put behind a source changes, extends or removes its last token only : the tokens
before it are the first tokens of the longer source, on the same lines. -/
theorem dropLast_tokens_parse_prefix (s s' : Scanner) (elapsed elapsed' : Span)
    (p q : List UInt8) :
    (s.parse elapsed p).value.last.tokens.dropLast <+:
      (s'.parse elapsed' (p ++ q)).value.last.tokens := by
  obtain ⟨w, hw⟩ := exists_normalize_append p q
  obtain ⟨ps, t, hshort, hlong, ht⟩ := exists_pieces_append (normalize p) w
  rw [tokens_last_parse, tokens_last_parse, ← Machine.tokens_progress, ← Machine.tokens_progress,
    progress_scan, progress_scan, hshort, hw, hlong, List.foldl_append, List.foldl_append]
  rcases ht with rfl | ⟨b, rest, rfl, hrest⟩
  · rw [pieces, List.foldl_nil]
    exact dropLast_joinOperators_prefix_of_prefix (Progress.tokens_prefix_foldl_add _ _)
  · rw [List.cons_append, pieces, hrest, pieces, pieces, List.foldl_cons, List.foldl_nil,
      List.foldl_cons]
    exact dropLast_tokens_add_prefix _ b rest w (Progress.tokens_prefix_foldl_add _ _)

end ScalaLex
