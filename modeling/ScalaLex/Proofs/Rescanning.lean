import ScalaLex.Proofs.Bodies
import ScalaLex.Proofs.OperatorRuns

/-!
# Tokens scanned again

The texts of the tokens of a scan, with a space between each two of them, are a source of one line.
A space ends every word, number and symbol, so such a source is cut text by text if no text opens a
construct (`lineTokens_spaced`). A name or a number is one piece again. An operator is cut into
operators that are joined into it : their texts make it up, and only what stands at its end can be
hard punctuation (`IsOperatorRun.joinedFrom`). The tokens were joined before, so nothing more is
joined when they are put side by side, and the second scan gives the tokens of the first one, all
of them on the first line (`rescan_parse`).

The texts of operators open nothing if there is no quote in them and no opener of a comment. Names
and numbers never do (`not_infix_of_isSpelled`).
-/

namespace ScalaLex

variable {b c : UInt8} {s v w source bytes : List UInt8} {t : Token} {ts : List Token}
  {text : String} {d : Delimiter}

/-- The text has no opener of a character literal or of a comment in it. -/
def OpensNothing (text : String) : Prop :=
  ∀ opener ∈ ["'", "//", "/*"], ¬opener.toList <:+: text.toList

instance (text : String) : Decidable (OpensNothing text) :=
  inferInstanceAs (Decidable (∀ opener ∈ ["'", "//", "/*"], ¬opener.toList <:+: text.toList))

/-- The token on the first line. -/
def Token.onFirstLine (t : Token) : Token := { t with line := 1 }

/-- The tokens of the pieces of a source that has one line. -/
def lineTokens (s : List UInt8) : List Token :=
  (pieces s).filterMap fun p => Lexeme.token? ⟨p.lexeme, 1⟩

/-- The texts of tokens, with a space between each two of them. -/
def spaced (ts : List Token) : List UInt8 :=
  Utf8.encode (String.intercalate " " (ts.map Token.value))

/-! ## Sources of one line -/

theorem tokens_scan_of_one_line (hcr : Byte.cr ∉ s) (hlf : Byte.lf ∉ s) :
    (Machine.scan s).tokens = lineTokens s := by
  have hline : ∀ l : Placed, (l.lexeme s).token? = Lexeme.token? ⟨l.bytes, 1⟩ := by
    intro l
    have hcount : (s.take l.offset).count Byte.lf = 0 :=
      List.count_eq_zero.2 fun hmem => hlf (List.mem_of_mem_take hmem)
    rw [Placed.lexeme, hcount]
    rfl
  have hplaced : (placed 0 (pieces s)).filterMap (fun l => Lexeme.token? ⟨l.bytes, 1⟩) =
      ((placed 0 (pieces s)).map Placed.bytes).filterMap fun w => Lexeme.token? ⟨w, 1⟩ := by
    rw [List.filterMap_map]
    rfl
  rw [Machine.tokens, lexemes_scan, lexemesOf, normalize_eq_self hcr, List.filterMap_map]
  simp only [Function.comp_def, hline]
  rw [hplaced, map_bytes_placed, List.filterMap_filter, List.filterMap_map, lineTokens]
  refine List.filterMap_congr fun p _ => ?_
  cases hp : p.lexeme <;> simp [hp, Lexeme.token?, classify?]

/-- What stands behind a space has tokens of its own. -/
theorem lineTokens_append_space (h : constructs s = []) (v : List UInt8) :
    lineTokens (s ++ 0x20 :: v) = lineTokens s ++ lineTokens v := by
  rw [lineTokens, pieces_append_space h, pieces_blank (by decide), List.filterMap_append,
    List.filterMap_cons]
  rfl

theorem spaced_cons (t : Token) (h : ts ≠ []) :
    spaced (t :: ts) = Utf8.encode t.value ++ 0x20 :: spaced ts := by
  obtain ⟨u, us, rfl⟩ := List.exists_cons_of_ne_nil h
  have hspace : Utf8.encode " " = [0x20] := rfl
  rw [spaced, spaced, List.map_cons, List.map_cons, String.intercalate_cons_cons,
    Utf8.encode_append, Utf8.encode_append, hspace, List.append_assoc, List.singleton_append]

theorem spaced_singleton (t : Token) : spaced [t] = Utf8.encode t.value := by
  rw [spaced, List.map_singleton, String.intercalate_singleton]

/-- A text that opens no construct is cut as it would be alone. -/
theorem lineTokens_spaced (h : ∀ t ∈ ts, constructs (Utf8.encode t.value) = []) :
    lineTokens (spaced ts) = ts.flatMap fun t => lineTokens (Utf8.encode t.value) := by
  induction ts with
  | nil =>
    have hnone : spaced [] = [] := rfl
    rw [hnone, lineTokens, pieces]
    rfl
  | cons t ts ih =>
    rw [List.forall_mem_cons] at h
    rcases eq_or_ne ts [] with rfl | hne
    · rw [spaced_singleton, List.flatMap_singleton]
    · rw [List.flatMap_cons, ← ih h.2, spaced_cons t hne, lineTokens_append_space h.1]

theorem mem_spaced (h : b ∈ spaced ts) : b = 0x20 ∨ ∃ t ∈ ts, b ∈ Utf8.encode t.value := by
  induction ts with
  | nil => cases h
  | cons t ts ih =>
    have hfirst : b ∈ Utf8.encode t.value → b = 0x20 ∨ ∃ u ∈ t :: ts, b ∈ Utf8.encode u.value :=
      fun hb => Or.inr ⟨t, List.mem_cons_self, hb⟩
    rcases eq_or_ne ts [] with rfl | hne
    · exact hfirst (by rwa [spaced_singleton] at h)
    · rw [spaced_cons t hne, List.mem_append, List.mem_cons] at h
      rcases h with h | rfl | h
      · exact hfirst h
      · exact Or.inl rfl
      · exact (ih h).imp_right fun ⟨u, hu, hb⟩ => ⟨u, List.mem_cons_of_mem t hu, hb⟩

/-! ## Names and numbers -/

/-- A lexeme that is no operator is a word or a number. -/
theorem IsLexeme.word_or_number (h : IsLexeme s) (hclass : classify? s ≠ some .operator) :
    ∃ b w, s = b :: w ∧ ((∀ c ∈ b :: w, Byte.isWord c = true) ∨
      (Byte.isDigit b = true ∧ numberRun b w = w)) := by
  cases h with
  | @word b w h => exact ⟨b, w, rfl, Or.inl h⟩
  | @number b w hdigit hrun => exact ⟨b, w, rfl, Or.inr ⟨hdigit, hrun⟩⟩
  | @quote w => exact absurd ((classify?_eq_operator_iff (by decide) w).2 (by decide)) hclass
  | @symbol b hb =>
    refine absurd ((classify?_eq_operator_iff ?_ []).2 ?_) hclass
    all_goals
      simp only [Bool.or_eq_false_iff, Byte.isWord] at hb
      simp [hb]

/-- A word or a number is the only piece of its source. -/
theorem pieces_of_isLexeme (h : IsLexeme s) (hclass : classify? s ≠ some .operator) :
    ∃ p, pieces s = [p] ∧ p.lexeme = s := by
  obtain ⟨b, w, rfl, hword | ⟨hdigit, hrun⟩⟩ := h.word_or_number hclass
  · have hw : ∀ c ∈ w, Byte.isWord c = true := fun c hc => hword c (List.mem_cons_of_mem b hc)
    rw [pieces, Piece.front_word (hword b List.mem_cons_self), List.takeWhile_eq_self_iff.2 hw,
      List.dropWhile_eq_nil_iff.2 hw, pieces]
    exact ⟨_, rfl, rfl⟩
  · rw [pieces, Piece.front_number hdigit, hrun, List.drop_length, pieces]
    exact ⟨_, rfl, rfl⟩

/-- No byte of a word or a number opens a construct. -/
theorem IsLexeme.ne_of_mem (h : IsLexeme s) (hclass : classify? s ≠ some .operator)
    (hc : c ∈ s) : c ≠ 0x2F ∧ c ≠ 0x22 ∧ c ≠ 0x27 := by
  obtain ⟨b, w, rfl, hword | ⟨hdigit, hrun⟩⟩ := h.word_or_number hclass
  · exact Byte.ne_of_class (by rw [hword c hc]; rfl)
  · rw [← hrun] at hc
    exact Byte.ne_of_isNumberPart (isNumberPart_of_mem_number hdigit hc)

/-! ## Texts that open nothing -/

theorem not_infix_of_opensNothing (h : OpensNothing text) (hd : d ≠ .string) :
    ¬d.opener <:+: Utf8.encode text := by
  have hascii : ∀ b ∈ d.opener, b.toNat < 0x80 := by cases d <;> simp [Delimiter.opener]
  intro hopener
  cases d with
  | blockComment => exact h "/*" (by simp) (Utf8.infix_of_infix_encode hascii hopener)
  | lineComment => exact h "//" (by simp) (Utf8.infix_of_infix_encode hascii hopener)
  | string => exact hd rfl
  | char => exact h "'" (by simp) (Utf8.infix_of_infix_encode hascii hopener)

/-- No opener is in the text of a token, if no opener of a character literal or comment is in it
should it be an operator. -/
theorem not_infix_of_isSpelled (h : t.IsSpelled)
    (hopens : t.kind = .operator → OpensNothing t.value) (d : Delimiter) :
    ¬d.opener <:+: Utf8.encode t.value := by
  by_cases hd : d = .string
  · subst hd
    rw [Delimiter.opener, List.singleton_infix_iff]
    exact fun hmem => (h.visible _ hmem).2 rfl
  by_cases hkind : t.kind = .operator
  · exact not_infix_of_opensNothing (hopens hkind) hd
  · intro hopener
    have hne : ∀ c ∈ d.opener, c ≠ 0x2F ∧ c ≠ 0x22 ∧ c ≠ 0x27 := fun c hc =>
      (h.lexeme hkind).ne_of_mem (h.classify?_ne hkind) (hopener.subset hc)
    cases d <;> simp [Delimiter.opener] at hne

/-! ## Operators -/

/-- A source that is valid UTF-8 is cut into valid pieces. -/
theorem isValid_bytes_of_mem_pieces (h : Utf8.isValid s = true) :
    ∀ p ∈ pieces s, Utf8.isValid p.bytes = true := by
  fun_induction pieces s with
  | case1 => exact fun p hp => by cases hp
  | case2 b rest ih =>
    rw [← Piece.bytes_front b rest] at h
    obtain ⟨hfront, hbehind⟩ := Utf8.isValid_append (Piece.asciiSeam_front b rest) h
    exact List.forall_mem_cons.2 ⟨hfront, ih hbehind⟩

namespace IsOperatorRun

/-- The pieces of a run give one operator each. -/
theorem lineTokens_eq (h : IsOperatorRun s) (hblank : ∀ b ∈ s, Byte.isBlank b = false)
    (hopen : constructs s = []) :
    lineTokens s = (pieces s).map fun p => ⟨.operator, Utf8.decode p.lexeme, 1⟩ := by
  rw [lineTokens, ← List.filterMap_eq_map]
  refine List.filterMap_congr fun p hp => ?_
  rw [Lexeme.token?, (h.of_mem_pieces hblank hopen p hp).2]
  rfl

/-- The operators of a run that is valid UTF-8 make it up. -/
theorem encode_join (h : IsOperatorRun s) (hblank : ∀ b ∈ s, Byte.isBlank b = false)
    (hopen : constructs s = []) (hvalid : Utf8.isValid s = true) :
    Utf8.encode (String.join ((lineTokens s).map Token.value)) = s := by
  have hbytes : ∀ p ∈ pieces s, Utf8.encode (Utf8.decode p.lexeme) = p.bytes := by
    intro p hp
    have hskipped : p.bytes = p.lexeme := by
      rw [Piece.bytes, (h.of_mem_pieces hblank hopen p hp).1, List.nil_append]
    have hvalid' := isValid_bytes_of_mem_pieces hvalid p hp
    rw [hskipped] at hvalid' ⊢
    exact Utf8.encode_decode hvalid'
  have hmap : (pieces s).map (fun p => Utf8.encode (Utf8.decode p.lexeme)) =
      (pieces s).map Piece.bytes := List.map_congr_left hbytes
  rw [h.lineTokens_eq hblank hopen, Utf8.encode_join, List.flatMap_map, List.flatMap_map,
    List.flatMap_def, hmap, ← List.flatMap_def, flatMap_bytes_pieces]

/-- The operators of a run are joined into the token whose text they make up. -/
theorem joinedFrom (h : IsOperatorRun (Utf8.encode t.value)) (hspelled : t.IsSpelled)
    (hkind : t.kind = .operator) (halone : HardAlone (Utf8.encode t.value))
    (hopen : constructs (Utf8.encode t.value) = []) :
    JoinedFrom (lineTokens (Utf8.encode t.value)) t.onFirstLine := by
  have hblank : ∀ b ∈ Utf8.encode t.value, Byte.isBlank b = false := fun b hb =>
    (hspelled.visible b hb).1
  have htokens := h.lineTokens_eq hblank hopen
  have hvalue : t.value = String.join ((lineTokens (Utf8.encode t.value)).map Token.value) :=
    (Utf8.encode_inj (h.encode_join hblank hopen (Utf8.isValid_encode t.value))).symm
  have hnext : ∀ u ∈ lineTokens (Utf8.encode t.value), Utf8.encode u.value ≠ [] := by
    rw [htokens, List.forall_mem_map]
    intro p hp
    obtain ⟨b, w, hlexeme⟩ :=
      exists_cons_of_classify? (h.of_mem_pieces hblank hopen p hp).2
    rw [hlexeme]
    exact Utf8.encode_decode_ne_nil (List.cons_ne_nil b w)
  refine ⟨?_, hvalue, ?_, fun hne => absurd hkind hne, ?_⟩
  · obtain ⟨b, w, hbytes⟩ := exists_cons_of_classify? hspelled.kind
    rw [htokens, hbytes, pieces, List.map_cons]
    exact ⟨_, _, rfl, rfl⟩
  · intro u hu
    rw [htokens] at hu
    obtain ⟨p, -, rfl⟩ := List.mem_map.1 hu
    exact hkind.symm
  · intro before next after hblock hne
    rw [Bool.eq_false_iff]
    intro hhard
    obtain ⟨b, hb, hbefore⟩ := isHardPunctuation_iff.1 hhard
    -- hard punctuation at the start of the run would be all of it
    have hbytes : Utf8.encode t.value =
        b :: Utf8.encode (String.join ((next :: after).map Token.value)) := by
      rw [hvalue, hblock, List.map_append, String.join_append, Utf8.encode_append, hbefore,
        List.singleton_append]
    have hnil := halone b hb _ hbytes
    rw [List.map_cons, String.join_cons, Utf8.encode_append, List.append_eq_nil_iff] at hnil
    exact hnext next (by rw [hblock]; simp) hnil.1

end IsOperatorRun

/-! ## The second scan -/

/-- The text of a final token is cut into tokens that are joined into the token. -/
theorem block_lineTokens {s : Scanner} {elapsed : Span}
    (ht : t ∈ (s.parse elapsed source).value.last.tokens)
    (hopens : t.kind = .operator → OpensNothing t.value) :
    Block (lineTokens (Utf8.encode t.value)) t.onFirstLine := by
  have hspelled := isSpelled_of_mem_parse s elapsed source t ht
  have hnone := not_infix_of_isSpelled hspelled hopens
  by_cases hkind : t.kind = .operator
  · have hquote : 0x27 ∉ Utf8.encode t.value := by
      have := hnone .char
      rwa [Delimiter.opener, List.singleton_infix_iff] at this
    have hrun := isOperatorRun_of_mem_parse s elapsed source t ht hkind hquote
    exact (hrun.joinedFrom hspelled hkind (hardAlone_of_mem_parse s elapsed source t ht)
      (constructs_eq_nil hnone)).toBlock
  · obtain ⟨p, hpieces, hlexeme⟩ :=
      pieces_of_isLexeme (hspelled.lexeme hkind) (hspelled.classify?_ne hkind)
    have hsingle : lineTokens (Utf8.encode t.value) = [t.onFirstLine] := by
      rw [lineTokens, hpieces, List.filterMap_cons, hlexeme, Lexeme.token?, hspelled.kind,
        Utf8.decode_encode]
      rfl
    rw [hsingle]
    exact .single _

/-- The texts of the tokens of a scan, put side by side with spaces between them, have the same
tokens again, all of them on the first line, if no operator has an opener of a character literal
or of a comment in it. -/
theorem rescan_parse (s s' : Scanner) (elapsed elapsed' : Span) (source : List UInt8) :
    let tokens := (s.parse elapsed source).value.last.tokens
    (∀ t ∈ tokens, t.kind = .operator → OpensNothing t.value) →
    (s'.parse elapsed' (spaced tokens)).value.last.tokens = tokens.map Token.onFirstLine := by
  intro tokens hopens
  have hspelled := isSpelled_of_mem_parse s elapsed source
  have hconstructs : ∀ t ∈ tokens, constructs (Utf8.encode t.value) = [] := fun t ht =>
    constructs_eq_nil (not_infix_of_isSpelled (hspelled t ht) (hopens t ht))
  have hline : ∀ b ∈ spaced tokens, b ≠ Byte.cr ∧ b ≠ Byte.lf := by
    intro b hb
    rcases mem_spaced hb with rfl | ⟨t, ht, hb⟩
    · decide
    · have hblank := ((hspelled t ht).visible b hb).1
      constructor <;> rintro rfl <;> cases hblank
  have hblocks : List.Forall₂ Block (tokens.map fun t => lineTokens (Utf8.encode t.value))
      (tokens.map Token.onFirstLine) := by
    rw [List.forall₂_map_left_iff, List.forall₂_map_right_iff, List.forall₂_same]
    exact fun t ht => block_lineTokens ht (hopens t ht)
  have hchain : (tokens.map Token.onFirstLine).IsChain Apart :=
    (List.isChain_map _).2 (isChain_joinOperators (Machine.scan source).tokens)
  rw [tokens_last_parse, tokens_scan_of_one_line (fun h => (hline _ h).1 rfl)
    (fun h => (hline _ h).2 rfl), lineTokens_spaced hconstructs, List.flatMap_def,
    tokens_joinOperators_flatten hblocks hchain]

/-- Two words above 127, the second one ill-formed, are one word in the second scan, with a bracket
before them that takes nothing in and a semicolon that was taken in. -/
theorem rescan_parse_joined_words :
    let source : List UInt8 :=
      [0x28, 0xC3, 0xA9, 0x0A, 0xFF, 0x78, 0x2B, 0x3B, 0x31, 0x65, 0x2D, 0x35, 0x69, 0x66]
    let tokens : List Token := [⟨.operator, "(", 1⟩, ⟨.operator, "é\uFFFDx+;", 1⟩,
      ⟨.literal, "1e-5", 2⟩, ⟨.reserved, "if", 2⟩]
    (({} : Scanner).parse {} source).value.last.tokens = tokens ∧
    (∀ t ∈ tokens, t.kind = .operator → OpensNothing t.value) ∧
    (({} : Scanner).parse {} (spaced tokens)).value.last.tokens =
      tokens.map Token.onFirstLine := by
  intro source tokens
  have hraw : (Machine.scan source).tokens = [⟨.operator, "(", 1⟩, ⟨.operator, "é", 1⟩,
      ⟨.operator, "\uFFFDx", 2⟩, ⟨.operator, "+", 2⟩, ⟨.operator, ";", 2⟩, ⟨.literal, "1e-5", 2⟩,
      ⟨.reserved, "if", 2⟩] := by cbv
  have htokens : (({} : Scanner).parse {} source).value.last.tokens = tokens := by
    rw [tokens_last_parse, hraw]
    decide
  have hopens : ∀ t ∈ tokens, t.kind = .operator → OpensNothing t.value := by decide
  have hagain := rescan_parse {} {} {} {} source
  rw [htokens] at hagain
  exact ⟨htokens, hopens, hagain hopens⟩

end ScalaLex
