import ScalaLex.Proofs.LongOperators
import ScalaLex.Proofs.SourceParts

/-!
# How tokens are spelled

A lexeme is a word, a number, a closing quote with the word behind it, or a single symbol
(`IsLexeme`). Decoding keeps what it is : only bytes above 127 can change, and those are parts of
words (`IsLexeme.encode_decode`). The class of a lexeme is told by its first byte and by the table
of reserved words, none of which has a replacement character, so the class can be read off the
decoded text (`classify?_encode_decode`).

Joining puts operators together and looks at nothing else. So whatever holds of the tokens of all
lexemes, and of two operators taken together once it holds of each, holds of every token of a scan
(`forall_tokens_parse`). One such property is that the kind of a token and the form that its text
must have are those of its bytes (`Token.IsSpelled`). `spelling_parse` says it of the characters.
-/

namespace ScalaLex

variable {b c : UInt8} {s w u v rest bytes source : List UInt8} {k : Kind} {t next : Token}
  {l : Placed} {text : String}

/-! ## What lexemes are -/

/-- What the bytes of a lexeme can be. -/
inductive IsLexeme : List UInt8 → Prop
  | word {b : UInt8} {w : List UInt8} (h : ∀ c ∈ b :: w, Byte.isWord c = true) : IsLexeme (b :: w)
  | number {b : UInt8} {w : List UInt8} (hdigit : Byte.isDigit b = true)
      (hrun : numberRun b w = w) : IsLexeme (b :: w)
  /-- A closing quote, with the word behind it. -/
  | quote {w : List UInt8} (h : ∀ c ∈ w, Byte.isWord c = true) : IsLexeme (0x27 :: w)
  | symbol {b : UInt8} (hclass : (Byte.isDigit b || Byte.isWord b || Byte.isBlank b) = false)
      (hstring : b ≠ 0x22) : IsLexeme [b]

/-- A number ends where it ended before it was cut off. -/
theorem numberRun_numberRun (before : UInt8) (s : List UInt8) :
    numberRun before (numberRun before s) = numberRun before s := by
  induction s generalizing before with
  | nil => rfl
  | cons b s ih =>
    rw [numberRun]
    split
    · rename_i h
      rw [numberRun, if_pos h, ih]
    · rfl

theorem Piece.isLexeme_front (h : (front b rest).1.lexeme ≠ []) :
    IsLexeme (front b rest).1.lexeme := by
  have htake : ∀ s : List UInt8, ∀ c ∈ s.takeWhile Byte.isWord, Byte.isWord c = true :=
    fun s => List.all_eq_true.1 List.all_takeWhile
  have hspec := front_spec b rest
  generalize (front b rest).1 = p, (front b rest).2 = behind at h hspec ⊢
  cases hspec with
  | unclosed | closed | blank => exact absurd rfl h
  | @char inner behind => exact .quote (htake behind)
  | number hdigit => exact .number hdigit (numberRun_numberRun b rest)
  | word hword => exact .word (List.forall_mem_cons.2 ⟨hword, htake rest⟩)
  | symbol hopen hclass =>
    refine .symbol hclass ?_
    rintro rfl
    have hstring := Delimiter.opening?_opener .string rest
    rw [Delimiter.opener, List.singleton_append, hopen] at hstring
    cases hstring

theorem isLexeme_of_mem (h : l ∈ lexemesIn source) : IsLexeme l.bytes := by
  obtain ⟨p, hp, rfl⟩ := List.mem_map.1 h
  obtain ⟨b, rest, c, w, hbytes, hlexeme⟩ := exists_front_of_mem_placed hp
  rw [hbytes, ← hlexeme]
  exact Piece.isLexeme_front (by rw [hlexeme]; exact List.cons_ne_nil c w)

/-! ## Decoded lexemes -/

theorem Byte.isWord_of_le (h : 0x80 ≤ b.toNat) : isWord b = true := by
  have hlt : 127 < b := UInt8.lt_iff_toNat_lt.2 h
  simp [isWord, hlt]

/-- Decoding puts nothing but parts of words in the place of parts of words. -/
theorem isWord_of_mem_encode_decode (h : ∀ c ∈ w, Byte.isWord c = true)
    (hc : c ∈ Utf8.encode (Utf8.decode w)) : Byte.isWord c = true :=
  (Utf8.mem_encode_decode hc).elim (h c) Byte.isWord_of_le

theorem lt_of_mem_number (hb : Byte.isDigit b = true) (hw : numberRun b w = w)
    (hc : c ∈ b :: w) : c.toNat < 0x80 := by
  rw [← hw] at hc
  exact Byte.lt_of_isNumberPart (isNumberPart_of_mem_number hb hc)

theorem encode_decode_of_ascii (h : ∀ b ∈ bytes, b.toNat < 0x80) :
    Utf8.encode (Utf8.decode bytes) = bytes :=
  Utf8.encode_decode (Utf8.isValid_of_ascii h)

/-- A lexeme that is decoded is a lexeme of the same form. -/
theorem IsLexeme.encode_decode (h : IsLexeme bytes) :
    IsLexeme (Utf8.encode (Utf8.decode bytes)) := by
  cases h with
  | @word b w h =>
    obtain ⟨c, w', hw'⟩ := List.exists_cons_of_ne_nil
      (Utf8.encode_decode_ne_nil (List.cons_ne_nil b w))
    rw [hw']
    exact .word fun d hd => isWord_of_mem_encode_decode h (by rwa [hw'])
  | number hdigit hrun =>
    rw [encode_decode_of_ascii fun c => lt_of_mem_number hdigit hrun]
    exact .number hdigit hrun
  | quote h =>
    rw [Utf8.encode_decode_cons_of_lt (by decide)]
    exact .quote fun c hc => isWord_of_mem_encode_decode h hc
  | @symbol b hclass hstring =>
    have hword : Byte.isWord b = false := by simp_all
    rw [encode_decode_of_ascii (List.forall_mem_singleton.2 (Byte.lt_of_not_isWord hword))]
    exact .symbol hclass hstring

namespace IsLexeme

/-- A lexeme that starts as a word is one. -/
theorem isWord (h : IsLexeme (b :: w)) (hb : Byte.isWord b = true) :
    ∀ c ∈ b :: w, Byte.isWord c = true := by
  cases h with
  | word h => exact h
  | number hdigit => rw [Byte.isDigit_of_isWord hb] at hdigit; cases hdigit
  | quote => cases hb
  | symbol hclass => simp [hb] at hclass

/-- A lexeme that starts as a number is one. -/
theorem numberRun_eq (h : IsLexeme (b :: w)) (hb : Byte.isDigit b = true) :
    numberRun b w = w := by
  cases h with
  | word h => rw [Byte.isDigit_of_isWord (h b List.mem_cons_self)] at hb; cases hb
  | number _ hrun => exact hrun
  | quote => cases hb
  | symbol hclass => simp [hb] at hclass

/-- No byte of a lexeme is a blank or the quote of a string. -/
theorem visible (h : IsLexeme bytes) (hc : c ∈ bytes) :
    Byte.isBlank c = false ∧ c ≠ 0x22 := by
  have hword : Byte.isWord c = true → Byte.isBlank c = false ∧ c ≠ 0x22 := fun hc =>
    ⟨Byte.isBlank_of_isWord hc, (Byte.ne_of_class (by rw [hc]; rfl)).2.1⟩
  cases h with
  | word h => exact hword (h c hc)
  | @number b w hdigit hrun =>
    rw [← hrun] at hc
    have hpart := isNumberPart_of_mem_number hdigit hc
    exact ⟨Byte.isBlank_of_isNumberPart hpart, (Byte.ne_of_isNumberPart hpart).2.1⟩
  | quote h =>
    rcases List.mem_cons.1 hc with rfl | hc
    · decide
    · exact hword (h c hc)
  | symbol hclass hstring =>
    obtain rfl := List.mem_singleton.1 hc
    simp only [Bool.or_eq_false_iff] at hclass
    exact ⟨hclass.2, hstring⟩

end IsLexeme

/-! ## Classes -/

/-- The words of the table are made of letters. -/
theorem isAlpha_of_contains (h : ReservedWords.contains text = true) :
    ∀ char ∈ text.toList, char.isAlpha = true := by
  have hall : ∀ word ∈ ReservedWords.declared, word.toList.all Char.isAlpha = true := by decide
  exact List.all_eq_true.1 (hall text (List.contains_iff_mem.1 h))

theorem isLetter_of_contains (h : ReservedWords.contains text = true)
    (hbytes : Utf8.encode text = b :: w) : Byte.isLetter b = true := by
  have hall : ∀ word ∈ ReservedWords.declared,
      (Utf8.encode word).head?.any Byte.isLetter = true := by decide
  have := hall text (List.contains_iff_mem.1 h)
  rwa [hbytes] at this

/-- A text with an ill-formed part is in no table of words. -/
theorem any_contains_decode? (bytes : List UInt8) :
    (Utf8.decode? bytes).any ReservedWords.contains =
      ReservedWords.contains (Utf8.decode bytes) := by
  rw [Utf8.decode?]
  cases hvalid : Utf8.isValid bytes with
  | true => rfl
  | false =>
    refine (Bool.eq_false_iff.2 fun hword => ?_).symm
    have := isAlpha_of_contains hword _ (Utf8.replacement_mem_decode hvalid)
    exact absurd this (by decide)

/-- The class of a lexeme is that of its text. -/
theorem classify?_encode_decode (hb : Byte.isBlank b = false) (w : List UInt8) :
    classify? (Utf8.encode (Utf8.decode (b :: w))) = classify? (b :: w) := by
  rcases Nat.lt_or_ge b.toNat 0x80 with hlow | hhigh
  · have hsame : Utf8.encode (Utf8.decode (b :: w)) = b :: Utf8.encode (Utf8.decode w) :=
      Utf8.encode_decode_cons_of_lt hlow w
    have htext : Utf8.decode (b :: Utf8.encode (Utf8.decode w)) = Utf8.decode (b :: w) := by
      rw [← hsame, Utf8.decode_encode]
    rw [hsame, classify?_of_not_blank hb, classify?_of_not_blank hb, any_contains_decode?,
      any_contains_decode?, htext]
  · obtain ⟨c, w', hspelled, hw'⟩ := Utf8.exists_encode_decode_cons hhigh w
    have hoperator : ∀ d : UInt8, 0x80 ≤ d.toNat → ∀ w, classify? (d :: w) = some .operator := by
      intro d hd w
      have hword := Byte.isWord_of_le hd
      have hlt : 127 < d := UInt8.lt_iff_toNat_lt.2 hd
      rw [classify?_eq_operator_iff (Byte.isBlank_of_isWord hword), Byte.isDigit_of_isWord hword]
      grind [Byte.isLetter]
    rw [hspelled, List.cons_append, hoperator c (hw' c List.mem_cons_self), hoperator b hhigh]

/-! ## Tokens -/

/-- What holds of the tokens of a block holds of the token that they are joined into, if taking
in the next one keeps it. -/
theorem Block.induction {P : Token → Prop} {block : List Token} (h : Block block t)
    (hall : ∀ u ∈ block, P u)
    (habsorb : ∀ t next, P t → P next → Joined.joins t next = true → P (t.absorb next)) : P t := by
  induction h with
  | single t => exact hall t List.mem_cons_self
  | @absorb block t next _ hjoins ih =>
    rw [List.forall_mem_append] at hall
    exact habsorb t next (ih hall.1) (hall.2 next (List.mem_singleton_self next)) hjoins

/-- What holds of the token of every lexeme, and is kept when operators are joined, holds of every
token of a scan. -/
theorem forall_tokens_parse {P : Token → Prop}
    (hlexeme : ∀ l ∈ lexemesIn source, P (l.token source))
    (habsorb : ∀ t next, P t → P next → Joined.joins t next = true → P (t.absorb next))
    (s : Scanner) (elapsed : Span) : ∀ t ∈ (s.parse elapsed source).value.last.tokens, P t := by
  obtain ⟨blocks, hflat, hblocks⟩ := exists_blocks (Machine.scan source).tokens
  have hraw : ∀ u ∈ blocks.flatten, P u := by
    rw [hflat, tokens_scan, List.forall_mem_map]
    exact hlexeme
  rw [tokens_last_parse]
  generalize (joinOperators (Machine.scan source).tokens).tokens = out at hblocks ⊢
  clear hflat
  induction hblocks with
  | nil => exact fun t ht => by cases ht
  | cons hblock _ ih =>
    rw [List.flatten_cons, List.forall_mem_append] at hraw
    exact List.forall_mem_cons.2 ⟨hblock.induction hraw.1 habsorb, ih hraw.2⟩

/-- The kind of a token and the form of its text are those of the bytes of the text. -/
structure Token.IsSpelled (t : Token) : Prop where
  kind : classify? (Utf8.encode t.value) = some t.kind
  visible : ∀ b ∈ Utf8.encode t.value, Byte.isBlank b = false ∧ b ≠ 0x22
  lexeme : t.kind ≠ .operator → IsLexeme (Utf8.encode t.value)

theorem Token.IsSpelled.classify?_ne (h : t.IsSpelled) (hkind : t.kind ≠ .operator) :
    classify? (Utf8.encode t.value) ≠ some .operator := by
  rw [h.kind]
  exact fun heq => hkind (Option.some.inj heq)

theorem isSpelled_token (h : l ∈ lexemesIn source) : (l.token source).IsSpelled := by
  obtain ⟨b, w, hbytes, hblank, -⟩ := mem_lexemesIn h
  have hclass := classify?_of_mem h
  have hlexeme : IsLexeme (Utf8.encode (l.token source).value) := (isLexeme_of_mem h).encode_decode
  refine ⟨?_, fun _ => hlexeme.visible, fun _ => hlexeme⟩
  rw [Placed.token, ← hclass, hbytes, classify?_encode_decode hblank]

theorem exists_cons_of_classify? (h : classify? bytes = some k) :
    ∃ b w, bytes = b :: w := by
  cases bytes with
  | nil => cases h
  | cons b w => exact ⟨b, w, rfl⟩

theorem Token.IsSpelled.absorb (ht : t.IsSpelled) (hnext : next.IsSpelled)
    (hjoins : Joined.joins t next = true) : (t.absorb next).IsSpelled := by
  have hkind := (joins_eq_true_iff.1 hjoins).1
  have hclass := ht.kind
  obtain ⟨b, w, hbytes⟩ := exists_cons_of_classify? hclass
  have hblank := (ht.visible b (by rw [hbytes]; exact List.mem_cons_self)).1
  refine ⟨?_, ?_, fun h => absurd hkind h⟩
  · rw [hbytes, hkind, classify?_eq_operator_iff hblank] at hclass
    rw [Token.absorb, Utf8.encode_append, hbytes, List.cons_append, hkind,
      classify?_eq_operator_iff hblank, hclass]
  · rw [Token.absorb, Utf8.encode_append, List.forall_mem_append]
    exact ⟨ht.visible, hnext.visible⟩

theorem isSpelled_of_mem_parse (s : Scanner) (elapsed : Span) (source : List UInt8) :
    ∀ t ∈ (s.parse elapsed source).value.last.tokens, t.IsSpelled :=
  forall_tokens_parse (fun _ => isSpelled_token) (fun _ _ => Token.IsSpelled.absorb) s elapsed

/-! ## Characters -/

/-- A letter below 128 or the underscore. -/
def isNameStart (char : Char) : Bool := char.isAlpha || char == '_'

/-- A character that a name can go on with. -/
def isNamePart (char : Char) : Bool := isNameStart char || 127 < char.toNat

/-- A letter or underscore, then letters, underscores and characters above 127. -/
def IsName (text : String) : Prop := ∃ first others, text.toList = first :: others ∧
  isNameStart first = true ∧ ∀ char ∈ others, isNamePart char = true

/-- The letter of an exponent. -/
def isExponentMark (char : Char) : Bool := char == 'e' || char == 'E'

/-- A character that a number can go on with behind `before` : a digit, a point or the letter of
an exponent, or a sign directly behind such a letter. -/
def continuesNumeral (before char : Char) : Bool :=
  char.isDigit || char == '.' || isExponentMark char ||
    ((char == '+' || char == '-') && isExponentMark before)

/-- A digit, then what goes on with a number. -/
def IsNumeral (text : String) : Prop := ∃ first others, text.toList = first :: others ∧
  first.isDigit = true ∧
    (first :: others).IsChain fun before char => continuesNumeral before char = true

theorem toList_of_encode (h : Utf8.encode text = b :: w) (hb : b.toNat < 0x80) :
    text.toList = Char.ofNat b.toNat :: (Utf8.decode w).toList := by
  rw [← Utf8.decode_encode text, h, Utf8.decode_cons, Utf8.next_ascii hb, String.toList_append,
    String.toList_singleton, Option.getD_some, List.singleton_append]

theorem Byte.isNameStart_ofNat (hb : b.toNat < 0x80) :
    isNameStart (Char.ofNat b.toNat) = (isLetter b || b == 0x5F) := by
  have hall : ∀ n < 0x80, isNameStart (Char.ofNat n) =
      (isLetter (UInt8.ofNat n) || UInt8.ofNat n == 0x5F) := by decide
  rw [hall _ hb, UInt8.ofNat_toNat]

theorem Byte.isDigit_ofNat (hb : b.toNat < 0x80) : (Char.ofNat b.toNat).isDigit = isDigit b := by
  have hall : ∀ n < 0x80, (Char.ofNat n).isDigit = isDigit (UInt8.ofNat n) := by decide
  rw [hall _ hb, UInt8.ofNat_toNat]

theorem isNamePart_of_mem {char : Char} (hw : ∀ c ∈ Utf8.encode text, Byte.isWord c = true)
    (h : char ∈ text.toList) : isNamePart char = true := by
  rcases Nat.lt_or_ge char.toNat 0x80 with hlow | hhigh
  · have hword := hw _ (Utf8.mem_encode_of_ascii h hlow)
    have hnat : (UInt8.ofNat char.toNat).toNat = char.toNat := by simp; omega
    have hnot : ¬127 < UInt8.ofNat char.toNat := by
      rw [UInt8.lt_iff_toNat_lt, hnat]
      exact Nat.not_lt.2 (Nat.le_of_lt_succ hlow)
    have hstart := Byte.isNameStart_ofNat (b := UInt8.ofNat char.toNat) (by rwa [hnat])
    rw [hnat, Char.ofNat_toNat] at hstart
    rw [isNamePart, hstart]
    simp_all [Byte.isWord]
  · rw [isNamePart, decide_eq_true (Nat.lt_of_succ_le hhigh), Bool.or_true]

theorem isName_of_encode (h : Utf8.encode text = b :: w)
    (hb : (Byte.isLetter b || b == 0x5F) = true)
    (hw : ∀ c ∈ Utf8.encode text, Byte.isWord c = true) : IsName text := by
  have hlow : b.toNat < 0x80 := by
    have hlt : b < 0x80 := by grind [Byte.isLetter]
    exact UInt8.lt_iff_toNat_lt.1 hlt
  have htext := toList_of_encode h hlow
  refine ⟨_, _, htext, by rw [Byte.isNameStart_ofNat hlow, hb], fun char hchar => ?_⟩
  exact isNamePart_of_mem hw (by rw [htext]; exact List.mem_cons_of_mem _ hchar)

/-- What the bytes of a number go on with, its characters go on with. -/
theorem continuesNumeral_ofNat
    (h : (Byte.isNumeric c || (Byte.isSign c && Byte.isExponent b)) = true) :
    continuesNumeral (Char.ofNat b.toNat) (Char.ofNat c.toNat) = true := by
  have hmark : ∀ {b}, Byte.isExponent b = true → isExponentMark (Char.ofNat b.toNat) = true := by
    intro b hb
    rw [Byte.isExponent, Bool.or_eq_true, beq_iff_eq, beq_iff_eq] at hb
    rcases hb with rfl | rfl <;> rfl
  simp only [Byte.isNumeric, Byte.isSign, Bool.or_eq_true, Bool.and_eq_true, beq_iff_eq] at h
  rcases h with ((hdigit | rfl) | hexponent) | ⟨rfl | rfl, hexponent⟩
  · have hpart : Byte.isNumberPart c = true := by
      simp [Byte.isNumberPart, Byte.isNumeric, hdigit]
    rw [continuesNumeral, Byte.isDigit_ofNat (Byte.lt_of_isNumberPart hpart), hdigit]
    rfl
  · rfl
  all_goals simp [continuesNumeral, hmark hexponent]

theorem isChain_numberRun (h : numberRun b w = w) :
    (b :: w).IsChain fun before c =>
      (Byte.isNumeric c || (Byte.isSign c && Byte.isExponent before)) = true := by
  induction w generalizing b with
  | nil => exact .singleton b
  | cons c w ih =>
    rw [numberRun] at h
    split at h
    · exact List.isChain_cons_cons.2 ⟨‹_›, ih (List.cons.inj h).2⟩
    · cases h

theorem isNumeral_of_encode (h : Utf8.encode text = b :: w) (hb : Byte.isDigit b = true)
    (hw : numberRun b w = w) : IsNumeral text := by
  have hascii : ∀ c ∈ b :: w, c.toNat < 0x80 := fun c => lt_of_mem_number hb hw
  have htext : text.toList = (b :: w).map fun c => Char.ofNat c.toNat := by
    rw [← Utf8.toList_decode_of_ascii hascii, ← h, Utf8.decode_encode]
  have hchain : text.toList.IsChain fun before char => continuesNumeral before char = true := by
    rw [htext, List.isChain_map]
    exact (isChain_numberRun hw).imp fun _ _ => continuesNumeral_ofNat
  refine ⟨_, _, htext, ?_, by rwa [htext] at hchain⟩
  rw [Byte.isDigit_ofNat (hascii b List.mem_cons_self), hb]

/-! ## Kinds -/

namespace Token.IsSpelled

/-- The kind by the first byte, and by the table for a word. -/
theorem kind_eq (h : t.IsSpelled) (hbytes : Utf8.encode t.value = b :: w) :
    t.kind = kindOf b (ReservedWords.contains t.value) := by
  have hblank := (h.visible b (by rw [hbytes]; exact List.mem_cons_self)).1
  have hclass := h.kind
  rw [hbytes, classify?_of_not_blank hblank, any_contains_decode?, ← hbytes,
    Utf8.decode_encode] at hclass
  exact (Option.some.inj hclass).symm

theorem reserved_iff (h : t.IsSpelled) :
    t.kind = .reserved ↔ ReservedWords.contains t.value = true := by
  obtain ⟨b, w, hbytes⟩ := exists_cons_of_classify? h.kind
  rw [h.kind_eq hbytes, kindOf]
  constructor
  · intro hkind
    split_ifs at hkind with hletter hword
    exact hword
  · intro hword
    rw [isLetter_of_contains hword hbytes, Bool.true_or, if_pos rfl, if_pos hword]

theorem isName (h : t.IsSpelled) (hkind : t.kind = .identifier) : IsName t.value := by
  obtain ⟨b, w, hbytes⟩ := exists_cons_of_classify? h.kind
  have hfirst := h.kind_eq hbytes
  have hlexeme := h.lexeme (by rw [hkind]; decide)
  rw [hkind, kindOf] at hfirst
  rw [hbytes] at hlexeme
  split_ifs at hfirst with hletter
  refine isName_of_encode hbytes hletter ?_
  rw [hbytes]
  exact hlexeme.isWord (by rw [Byte.isWord, hletter, Bool.true_or])

theorem isNumeral (h : t.IsSpelled) (hkind : t.kind = .literal) : IsNumeral t.value := by
  obtain ⟨b, w, hbytes⟩ := exists_cons_of_classify? h.kind
  have hfirst := h.kind_eq hbytes
  have hlexeme := h.lexeme (by rw [hkind]; decide)
  rw [hkind, kindOf] at hfirst
  rw [hbytes] at hlexeme
  split_ifs at hfirst with _ _ hdigit
  exact isNumeral_of_encode hbytes hdigit (hlexeme.numberRun_eq hdigit)

end Token.IsSpelled

/-- The kind of every token of a scan is the class of the bytes of its text. Its text is in the
table if it is a reserved word and only then, has the form of a name or of a number if it is an
identifier or a literal, and in any case is a text of one or more characters in which there is
no blank and no quote of a string. -/
theorem spelling_parse (s : Scanner) (elapsed : Span) (source : List UInt8) :
    ∀ t ∈ (s.parse elapsed source).value.last.tokens,
      classify? (Utf8.encode t.value) = some t.kind ∧
      (t.kind = .reserved ↔ ReservedWords.contains t.value = true) ∧
      (t.kind = .identifier → IsName t.value) ∧
      (t.kind = .literal → IsNumeral t.value) ∧
      t.value ≠ "" ∧ ∀ b ∈ Utf8.encode t.value, Byte.isBlank b = false ∧ b ≠ 0x22 := by
  intro t ht
  have hspelled := isSpelled_of_mem_parse s elapsed source t ht
  refine ⟨hspelled.kind, hspelled.reserved_iff, hspelled.isName, hspelled.isNumeral, ?_,
    hspelled.visible⟩
  intro hempty
  have hclass := hspelled.kind
  rw [hempty] at hclass
  cases hclass

/-- A byte that spells no character makes a name of a word of the table. -/
theorem spelling_parse_ill_formed_word :
    let source : List UInt8 := [0x76, 0x61, 0x6C, 0xFF, 0x2B, 0x76, 0x61, 0x6C]
    let t : Token := ⟨.identifier, "val\uFFFD", 1⟩
    t ∈ (({} : Scanner).parse {} source).value.last.tokens ∧
    classify? (Utf8.encode t.value) = some .identifier ∧
    ReservedWords.contains t.value ≠ true ∧ IsName t.value := by
  intro source t
  have hraw : (Machine.scan source).tokens =
      [t, ⟨.operator, "+", 1⟩, ⟨.reserved, "val", 1⟩] := by cbv
  have ht : t ∈ (({} : Scanner).parse {} source).value.last.tokens := by
    rw [tokens_last_parse, hraw]
    decide
  obtain ⟨hkind, hreserved, hname, -⟩ := spelling_parse {} {} source t ht
  exact ⟨ht, hkind, mt hreserved.2 (by decide), hname rfl⟩

end ScalaLex
