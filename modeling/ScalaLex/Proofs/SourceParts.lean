import ScalaLex.Proofs.EncodedText
import ScalaLex.Proofs.NormalForm
import ScalaLex.Proofs.OpenConstructs
import ScalaLex.Proofs.TokenLines

/-!
# Parts of a source

The pieces of a normalized source are parts of the source itself (`exists_parts`). A part passes
over some bytes, whose line ends need not be normalized, and ends in the lexeme of its piece,
which has no line end (`Part.Spells`). What it passes over is a blank, a comment, a string or the
front of a character literal (`Part.PassesOver`).

A piece ends next to a byte below 128, and so does what it passes over. So a source that is
valid UTF-8 is cut into texts, and every lexeme is the text of its token
(`encode_value_tokens`). `slices_parse` says where the tokens of a scan are in such a source,
and what the bytes are that are in no token.
-/

namespace ScalaLex

variable {source u v w x y s rest body inner : List UInt8} {b c : UInt8} {d : Delimiter}

/-! ## Where a source can be cut -/

/-- Line ends are below 128, however they are written. -/
theorem asciiSeam_of_normalize (h : Utf8.AsciiSeam (normalize u) (normalize v)) :
    Utf8.AsciiSeam u v := by
  have hcr : Byte.cr.toNat < 0x80 := by decide
  rcases h with hlast | hfirst
  · refine Or.inl fun b hb => ?_
    by_cases hb' : b = Byte.cr
    · rw [hb']
      exact hcr
    · refine hlast b ?_
      rw [getLast?_normalize, Option.mem_def.1 hb]
      simp [hb']
  · refine Or.inr fun b hb => ?_
    rcases head?_normalize hb with rfl | hb
    · exact hcr
    · exact hfirst b hb

/-! ## Where pieces end -/

theorem Byte.lt_of_isNumberPart (h : Byte.isNumberPart c = true) : c.toNat < 0x80 := by
  have hlt : c < 0x80 := by
    grind [isNumberPart, isNumeric, isSign, isDigit, isExponent]
  exact UInt8.lt_iff_toNat_lt.1 hlt

theorem Byte.lt_of_not_isWord (h : Byte.isWord c = false) : c.toNat < 0x80 := by
  simp only [isWord, Bool.or_eq_false_iff, decide_eq_false_iff_not, UInt8.not_lt,
    UInt8.le_iff_toNat_le] at h
  exact Nat.lt_succ_of_le h.2

theorem Delimiter.lt_of_mem_closer (h : c ∈ d.closer) : c.toNat < 0x80 := by
  cases d <;> simp [closer] at h <;> rcases h with rfl | rfl <;> decide

theorem asciiSeam_takeWhile_isWord (x s : List UInt8) :
    Utf8.AsciiSeam (x ++ s.takeWhile Byte.isWord) (s.dropWhile Byte.isWord) := by
  refine Or.inr fun c hc => Byte.lt_of_not_isWord ?_
  have := List.head?_dropWhile_not Byte.isWord s
  rw [Option.mem_def.1 hc] at this
  simpa using this

namespace Piece

/-- A piece ends next to a byte below 128, or at the end of the source. -/
theorem asciiSeam_front (b : UInt8) (rest : List UInt8) :
    Utf8.AsciiSeam (front b rest).1.bytes (front b rest).2 := by
  have hspec := front_spec b rest
  generalize (front b rest).1 = p, (front b rest).2 = behind at hspec ⊢
  cases hspec with
  | unclosed => exact Or.inr fun c hc => by cases hc
  | closed =>
    refine Or.inl fun c hc => ?_
    rw [bytes, List.append_nil, List.getLast?_append_of_ne_nil _ (Delimiter.closer_ne_nil _)] at hc
    exact Delimiter.lt_of_mem_closer (List.mem_of_mem_getLast? hc)
  | @char inner behind =>
    rw [bytes, ← List.append_assoc]
    exact asciiSeam_takeWhile_isWord _ behind
  | number hdigit =>
    refine Or.inl fun c hc => ?_
    exact Byte.lt_of_isNumberPart
      (isNumberPart_of_mem_number hdigit (List.mem_of_mem_getLast? hc))
  | word => exact asciiSeam_takeWhile_isWord [b] rest
  | blank hblank =>
    exact Or.inl fun c hc => by
      cases hc
      exact Byte.lt_of_not_isWord (Byte.isWord_of_isBlank hblank)
  | symbol _ hclass =>
    simp only [Bool.or_eq_false_iff] at hclass
    exact Or.inl fun c hc => by
      cases hc
      exact Byte.lt_of_not_isWord hclass.1.2

/-- A lexeme behind bytes that are passed over starts with a byte below 128. -/
theorem asciiSeam_skipped_front (b : UInt8) (rest : List UInt8) :
    Utf8.AsciiSeam (front b rest).1.skipped (front b rest).1.lexeme := by
  have hspec := front_spec b rest
  generalize (front b rest).1 = p, (front b rest).2 = behind at hspec ⊢
  cases hspec with
  | unclosed | closed | blank => exact Or.inr fun c hc => by cases hc
  | char => exact Or.inr fun c hc => by cases hc; decide
  | number | word | symbol => exact Or.inl fun c hc => by cases hc

end Piece

/-! ## Parts -/

/-- A part of a source : bytes that are passed over, then a lexeme. -/
structure Part where
  passed : List UInt8 := []
  lexeme : List UInt8 := []
deriving Repr, DecidableEq, Inhabited

namespace Part

/-- All bytes of the part. -/
def bytes (p : Part) : List UInt8 := p.passed ++ p.lexeme

/-- The part is the piece `q` of the normalized source, as it is written in the source. -/
structure Spells (p : Part) (q : Piece) : Prop where
  skipped : normalize p.passed = q.skipped
  lexeme : p.lexeme = q.lexeme

/-- What can be passed over in front of a lexeme. -/
inductive PassesOver : Part → Prop
  /-- Nothing : the part is a lexeme. -/
  | nothing (w : List UInt8) : PassesOver ⟨[], w⟩
  /-- Bytes that stand for no token. -/
  | blank {u : List UInt8} (h : ∀ b ∈ u, Byte.isBlank b = true) : PassesOver ⟨u, []⟩
  /-- A comment, or a string with both of its quotes. -/
  | closed {d : Delimiter} {u inner : List UInt8} (hd : d ≠ .char)
      (h : normalize u = d.opener ++ inner ++ d.closer)
      (hclose : d.close? [] (inner ++ d.closer) = some (inner, [])) : PassesOver ⟨u, []⟩
  /-- A character literal up to its closing quote. -/
  | char {u inner w : List UInt8} (h : normalize u = Delimiter.char.opener ++ inner)
      (hclose : Delimiter.char.close? [] (inner ++ Delimiter.char.closer) = some (inner, [])) :
      PassesOver ⟨u, Delimiter.char.closer ++ w⟩
  /-- A comment or quoted literal without a closer. -/
  | unclosed {d : Delimiter} {u body : List UInt8} (h : normalize u = d.opener ++ body)
      (hclose : d.close? [] body = none) : PassesOver ⟨u, []⟩

theorem passesOver_of_front {p : Part} (h : p.Spells (Piece.front b rest).1) : p.PassesOver := by
  obtain ⟨passed, lexeme⟩ := p
  obtain ⟨hskipped, rfl⟩ := h
  have hspec := Piece.front_spec b rest
  generalize (Piece.front b rest).1 = q, (Piece.front b rest).2 = behind at hskipped hspec
  cases hspec with
  | unclosed _ hclose => exact .unclosed hskipped hclose
  | closed hd _ hclose => exact .closed hd hskipped (Delimiter.close?_of_append hclose)
  | char _ hclose => exact .char hskipped (Delimiter.close?_of_append hclose)
  | number | word | symbol =>
    obtain rfl : passed = [] := eq_nil_of_normalize_eq_nil hskipped
    exact .nothing _
  | blank hblank =>
    refine .blank fun c hc => ?_
    rcases mem_normalize_of_mem hc with rfl | hc
    · rfl
    · rw [hskipped] at hc
      rwa [List.mem_singleton.1 hc]

end Part

/-- The pieces of the normalized source are parts of the source. -/
theorem exists_parts (source : List UInt8) : ∃ parts : List Part,
    parts.flatMap Part.bytes = source ∧
      List.Forall₂ Part.Spells parts (pieces (normalize source)) ∧
      (∀ p ∈ parts, p.PassesOver) ∧
      (Utf8.isValid source = true →
        ∀ p ∈ parts, Utf8.isValid p.passed = true ∧ Utf8.isValid p.lexeme = true) := by
  generalize hs : normalize source = s
  fun_induction pieces s generalizing source with
  | case1 =>
    rw [eq_nil_of_normalize_eq_nil hs]
    exact ⟨[], rfl, .nil, by simp, by simp⟩
  | case2 b rest ih =>
    rw [← Piece.bytes_front b rest] at hs
    obtain ⟨front, behind, rfl, hfront, hbehind⟩ := normalize_eq_append hs
    obtain ⟨passed, lexeme, rfl, hpassed, hlexeme⟩ := normalize_eq_append hfront
    obtain ⟨parts, rfl, hparts, hpasses, hvalid⟩ := ih behind hbehind
    have hlf : Byte.lf ∉ (Piece.front b rest).1.lexeme := fun hmem => by
      cases Piece.isBlank_of_mem_lexeme_front hmem
    have hspells : Part.Spells ⟨passed, lexeme⟩ (Piece.front b rest).1 :=
      ⟨hpassed, eq_of_normalize_eq hlexeme hlf⟩
    refine ⟨⟨passed, lexeme⟩ :: parts, rfl, .cons hspells hparts,
      List.forall_mem_cons.2 ⟨Part.passesOver_of_front hspells, hpasses⟩, fun h => ?_⟩
    have hseam := Piece.asciiSeam_front b rest
    rw [← hfront, ← hbehind] at hseam
    obtain ⟨hleft, hright⟩ := Utf8.isValid_append (asciiSeam_of_normalize hseam) h
    have hinner := Piece.asciiSeam_skipped_front b rest
    rw [← hpassed, ← hlexeme] at hinner
    exact List.forall_mem_cons.2
      ⟨Utf8.isValid_append (asciiSeam_of_normalize hinner) hleft, hvalid hright⟩

/-! ## The tokens in a source -/

/-- The lexemes of the parts are those of the source. -/
theorem map_bytes_lexemesIn {parts : List Part}
    (h : List.Forall₂ Part.Spells parts (pieces (normalize source))) :
    (lexemesIn source).map Placed.bytes =
      (parts.map Part.lexeme).filter fun w => !w.isEmpty := by
  have hlexemes : parts.map Part.lexeme = (pieces (normalize source)).map Piece.lexeme := by
    rw [← List.forall₂_eq_eq_eq, List.forall₂_map_left_iff, List.forall₂_map_right_iff]
    exact h.imp fun _ _ hp => hp.lexeme
  rw [hlexemes, ← map_bytes_placed 0, lexemesIn, List.map_map]
  rfl

/-- Every token of a scan is spelled by its lexeme if the lexemes are valid UTF-8. -/
theorem encode_value_tokens (h : ∀ l ∈ lexemesIn source, Utf8.isValid l.bytes = true) :
    (Machine.scan source).tokens.map (fun t => Utf8.encode t.value) =
      (lexemesIn source).map Placed.bytes := by
  rw [tokens_scan, List.map_map]
  exact List.map_congr_left fun l hl => Utf8.encode_decode (h l hl)

/-- The final tokens of a scan spell the same text as its raw tokens. -/
theorem encode_join_parse (s : Scanner) (elapsed : Span) (source : List UInt8) :
    Utf8.encode (String.join ((s.parse elapsed source).value.last.tokens.map Token.value)) =
      ((Machine.scan source).tokens.map fun t => Utf8.encode t.value).flatten := by
  obtain ⟨blocks, hflat, hblocks⟩ := exists_blocks (Machine.scan source).tokens
  rw [tokens_last_parse, join_value hblocks, hflat, Utf8.encode_join, List.flatMap_map,
    List.flatMap_def]

theorem flatten_filter_isEmpty (ws : List (List UInt8)) :
    (ws.filter fun w => !w.isEmpty).flatten = ws.flatten := by
  induction ws with
  | nil => rfl
  | cons w ws ih => cases w <;> simp [ih]

theorem flatMap_lexeme_sublist (parts : List Part) :
    (parts.flatMap Part.lexeme).Sublist (parts.flatMap Part.bytes) := by
  induction parts with
  | nil => exact List.Sublist.refl _
  | cons p parts ih =>
    exact (List.sublist_append_right p.passed p.lexeme).append ih

theorem length_flatMap_bytes (parts : List Part) : (parts.flatMap Part.bytes).length =
    (parts.flatMap Part.lexeme).length + (parts.map fun p => p.passed.length).sum := by
  induction parts with
  | nil => rfl
  | cons p parts ih =>
    simp only [List.flatMap_cons, List.length_append, List.map_cons, List.sum_cons, ih, Part.bytes]
    omega

/-- A source that is valid UTF-8 is cut into valid parts. The raw tokens are spelled by the
lexemes of the parts, one after the other, and the bytes in front of a lexeme are blank, are a
comment or a string, or belong to a character literal whose closing quote comes behind them.
So the final tokens spell a subsequence of the source, and with what is passed over they make
up its length. -/
theorem slices_parse (s : Scanner) (elapsed : Span) (h : Utf8.isValid source = true) :
    let out := (s.parse elapsed source).value.last.tokens
    ∃ parts : List Part, parts.flatMap Part.bytes = source ∧
      List.Forall₂ Part.Spells parts (pieces (normalize source)) ∧
      (∀ p ∈ parts, Utf8.isValid p.passed = true ∧ Utf8.isValid p.lexeme = true) ∧
      (Machine.scan source).tokens.map (fun t => Utf8.encode t.value) =
        (parts.map Part.lexeme).filter (fun w => !w.isEmpty) ∧
      (∀ p ∈ parts, p.PassesOver) ∧
      (Utf8.encode (String.join (out.map Token.value))).Sublist source ∧
      (out.map fun t => t.value.utf8ByteSize).sum + (parts.map fun p => p.passed.length).sum =
        source.length := by
  intro out
  obtain ⟨parts, hbytes, hspells, hpasses, hvalid⟩ := exists_parts source
  have hvalid := hvalid h
  have hlexemes := map_bytes_lexemesIn hspells
  have hslices : ∀ l ∈ lexemesIn source, Utf8.isValid l.bytes = true := by
    intro l hl
    have hmem := List.mem_map_of_mem (f := Placed.bytes) hl
    rw [hlexemes, List.mem_filter] at hmem
    obtain ⟨p, hp, hlexeme⟩ := List.mem_map.1 hmem.1
    rw [← hlexeme]
    exact (hvalid p hp).2
  have hraw := (encode_value_tokens hslices).trans hlexemes
  have htext : Utf8.encode (String.join (out.map Token.value)) = parts.flatMap Part.lexeme := by
    rw [encode_join_parse, hraw, flatten_filter_isEmpty, List.flatMap_def]
  have hsizes : (out.map fun t => t.value.utf8ByteSize).sum =
      (parts.flatMap Part.lexeme).length := by
    rw [← htext, Utf8.encode_join, List.flatMap_map, List.length_flatMap]
    simp only [Utf8.length_encode]
  refine ⟨parts, hbytes, hspells, hvalid, hraw, hpasses, ?_, ?_⟩
  · rw [htext, ← hbytes]
    exact flatMap_lexeme_sublist parts
  · rw [hsizes, ← length_flatMap_bytes, hbytes]

/-- A letter of two bytes, a closing quote behind a line end, and a string with a letter of three
bytes before a line end of two : three lexemes of five bytes, behind nine bytes in no token. -/
theorem slices_parse_closing_quote :
    let source : List UInt8 :=
      [0xC3, 0xA9, 0x27, 0x0D, 0x27, 0x62, 0x22, 0xE2, 0x82, 0xAC, 0x22, 0x0D, 0x0A, 0x2B]
    Utf8.isValid source = true ∧
    ∃ parts : List Part, parts.flatMap Part.bytes = source ∧
      (∀ p ∈ parts, p.PassesOver) ∧
      (parts.map Part.lexeme).filter (fun w => !w.isEmpty) =
        [[0xC3, 0xA9], [0x27, 0x62], [0x2B]] ∧
      (parts.map fun p => p.passed.length).sum = 9 := by
  intro source
  have hvalid : Utf8.isValid source = true := by cbv
  have hraw : (Machine.scan source).tokens =
      [⟨.operator, "é", 1⟩, ⟨.operator, "'b", 2⟩, ⟨.operator, "+", 3⟩] := by cbv
  obtain ⟨parts, hbytes, -, -, hslices, hpasses, -, hsum⟩ := slices_parse {} {} hvalid
  refine ⟨hvalid, parts, hbytes, hpasses, ?_, ?_⟩
  · rw [← hslices, hraw]
    decide
  · rw [tokens_last_parse, hraw] at hsum
    have hsizes : ((joinOperators [⟨.operator, "é", 1⟩, ⟨.operator, "'b", 2⟩,
        ⟨.operator, "+", 3⟩]).tokens.map fun t => t.value.utf8ByteSize).sum = 5 := by decide
    have hlength : source.length = 14 := rfl
    omega

end ScalaLex
