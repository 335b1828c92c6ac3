import ScalaLex.Proofs.Lexemes
import ScalaLex.Proofs.LineCount
import ScalaLex.Proofs.OperatorBlocks
import ScalaLex.Proofs.Placing

/-!
# The lines of tokens

`lexemesIn` lists the lexemes of a source with the offsets of their first bytes in the
source itself, and `unclosedIn?` gives the offset of the opener of the construct that the
source ends inside of. The first byte of the lexeme stands there (`mem_lexemesIn`), and so
does that of the opener (`opener_of_unclosedIn?`). Every lexeme has a class, so it gives a
token (`tokens_scan`).

`lines_parse` puts the tokens of a scan on their lines : each token is made of a block of
lexemes and is on the line of the first of them, the line being counted in the source. The
lines of successive tokens do not decrease, and the counter of the machine holds them all.
-/

namespace ScalaLex

/-- The lexemes of a source, with their offsets in the source. -/
def lexemesIn (source : List UInt8) : List Placed :=
  (placed 0 (pieces (normalize source))).map fun l => ⟨l.bytes, sourceOffset source l.offset⟩

/-- What a source ends inside of, and the offset of its opener in the source. -/
def unclosedIn? (source : List UInt8) : Option (Mode × Nat) :=
  (unclosed? 0 (pieces (normalize source))).map fun u => (u.1, sourceOffset source u.2)

/-- The token of a lexeme that lies in a source. Every such lexeme has a class. -/
def Placed.token (source : List UInt8) (l : Placed) : Token :=
  ⟨(classify? l.bytes).getD .operator, Utf8.decode l.bytes, UInt32.ofNat (lineAt source l.offset)⟩

/-- A token is made of a block of lexemes : it has their class, and their texts one after
the other, and is on the line of the first of them. -/
structure MadeOf (source : List UInt8) (block : List Placed) (t : Token) : Prop where
  kind : ∀ l ∈ block, classify? l.bytes = some t.kind
  value : t.value = String.join (block.map fun l => Utf8.decode l.bytes)
  operator : block.length = 1 ∨ t.kind = .operator
  line : ∃ first others, block = first :: others ∧ t.line.toNat = lineAt source first.offset

variable {source : List UInt8} {l : Placed} {t : Token}

/-! ## Offsets in the source -/

theorem mem_placed_lt (h : l ∈ placed 0 (pieces (normalize source))) :
    l.offset < (normalize source).length := by
  obtain ⟨hne, rest, hdrop⟩ := drop_eq_of_mem_placed h
  rw [flatMap_bytes_pieces] at hdrop
  rw [← Nat.not_le, ← List.drop_eq_nil_iff, hdrop]
  exact List.append_ne_nil_of_left_ne_nil hne rest

/-- The first byte of a lexeme stands at its offset, and is no blank. -/
theorem mem_lexemesIn (h : l ∈ lexemesIn source) :
    ∃ b w, l.bytes = b :: w ∧ Byte.isBlank b = false ∧ source[l.offset]? = some b := by
  obtain ⟨p, hp, rfl⟩ := List.mem_map.1 h
  obtain ⟨b, w, hbytes, hblank⟩ := isBlank_of_mem_placed hp
  obtain ⟨-, rest, hdrop⟩ := drop_eq_of_mem_placed hp
  have hfirst : (normalize source)[p.offset]? = some b := by
    rw [← List.head?_drop, ← flatMap_bytes_pieces (normalize source), hdrop, hbytes]
    rfl
  refine ⟨b, w, hbytes, hblank, getElem?_sourceOffset hfirst ?_⟩
  rintro rfl
  cases hblank

theorem mem_lexemesIn_lt (h : l ∈ lexemesIn source) : l.offset < source.length := by
  obtain ⟨p, hp, rfl⟩ := List.mem_map.1 h
  exact sourceOffset_lt_length (mem_placed_lt hp)

/-- Successive lexemes lie at increasing offsets. -/
theorem pairwise_lexemesIn (source : List UInt8) :
    (lexemesIn source).Pairwise fun l l' => l.offset < l'.offset := by
  rw [lexemesIn, List.pairwise_map]
  refine (pairwise_placed 0 _).imp_of_mem fun _ hl' hlt => ?_
  exact sourceOffset_lt hlt (Nat.le_of_lt (mem_placed_lt hl'))

/-- The opener of the construct that a source ends inside of stands at its offset. -/
theorem opener_of_unclosedIn? {u : Mode × Nat} (h : unclosedIn? source = some u) :
    ∃ d : Delimiter, u.1 = d.mode ∧ d.mode.swallowsInput = true ∧
      source[u.2]? = d.opener.head? := by
  obtain ⟨v, hv, rfl⟩ := Option.map_eq_some_iff.1 h
  obtain ⟨d, before, body, hnormal, -, hswallows, rfl⟩ := opener_of_unclosed? hv
  obtain ⟨b, w, hopener⟩ := List.exists_cons_of_ne_nil d.opener_ne_nil
  have hfirst : (normalize source)[0 + before.length]? = some b := by
    rw [hnormal, hopener]
    simp
  refine ⟨d, rfl, hswallows, ?_⟩
  rw [getElem?_sourceOffset hfirst, hopener]
  · rfl
  · rintro rfl
    have := d.count_opener
    rw [hopener, List.count_cons_self] at this
    cases this

theorem unclosedIn?_lt {u : Mode × Nat} (h : unclosedIn? source = some u) :
    u.2 < source.length := by
  obtain ⟨d, -, -, hopener⟩ := opener_of_unclosedIn? h
  rw [← Nat.not_le, ← List.getElem?_eq_none_iff, hopener, List.head?_eq_none_iff]
  exact d.opener_ne_nil

/-! ## The tokens of the lexemes -/

theorem classify?_of_mem (h : l ∈ lexemesIn source) :
    classify? l.bytes = some ((classify? l.bytes).getD .operator) := by
  obtain ⟨b, w, hbytes, hblank, -⟩ := mem_lexemesIn h
  rw [hbytes, classify?_of_not_blank hblank, Option.getD_some]

theorem lexemesOf_eq_map (source : List UInt8) : lexemesOf source =
    (lexemesIn source).map fun l => ⟨l.bytes, UInt32.ofNat (lineAt source l.offset)⟩ := by
  rw [lexemesOf, lexemesIn, List.map_map]
  refine List.map_congr_left fun l hl => ?_
  rw [Function.comp_apply, lineAt_sourceOffset (Nat.le_of_lt (mem_placed_lt hl)), Placed.lexeme]

/-- Every lexeme of a source gives a token. -/
theorem tokens_scan (source : List UInt8) :
    (Machine.scan source).tokens = (lexemesIn source).map (Placed.token source) := by
  rw [Machine.tokens, lexemes_scan, lexemesOf_eq_map, List.filterMap_map, ← List.filterMap_eq_map]
  refine List.filterMap_congr fun l hl => ?_
  rw [Function.comp_apply, Function.comp_apply, Lexeme.token?, classify?_of_mem hl]
  rfl

/-! ## Blocks of lexemes -/

/-- A list is cut as its image is cut. -/
theorem exists_flatten_of_map_eq {α β : Type} {f : α → β} {blocks : List (List β)} {ls : List α}
    (h : ls.map f = blocks.flatten) :
    ∃ parts : List (List α), parts.flatten = ls ∧ blocks = parts.map (List.map f) := by
  induction blocks generalizing ls with
  | nil => exact ⟨[], (List.map_eq_nil_iff.1 h).symm, rfl⟩
  | cons block blocks ih =>
    obtain ⟨part, others, rfl, rfl, hothers⟩ := List.map_eq_append_iff.1 h
    obtain ⟨parts, rfl, rfl⟩ := ih hothers
    exact ⟨part :: parts, rfl, rfl⟩

theorem MadeOf.of_block {block : List Placed} (h : Block (block.map (Placed.token source)) t)
    (hmem : ∀ l ∈ block, l ∈ lexemesIn source) (hlen : source.length + 1 < UInt32.size) :
    MadeOf source block t where
  kind := by
    intro l hl
    rw [classify?_of_mem (hmem l hl)]
    exact congrArg some (h.kind_eq _ (List.mem_map_of_mem hl))
  value := by
    rw [h.value_eq, List.map_map]
    rfl
  operator := by
    rcases h.eq_singleton_or_operator with hsingle | hkind
    · have hlength := congrArg List.length hsingle
      rw [List.length_map] at hlength
      exact Or.inl hlength
    · exact Or.inr hkind
  line := by
    obtain ⟨first, others, hblock, hline⟩ := h.exists_line
    obtain ⟨l, ls, rfl, rfl, -⟩ := List.map_eq_cons_iff.1 hblock
    have hlt := mem_lexemesIn_lt (hmem l List.mem_cons_self)
    refine ⟨l, ls, rfl, ?_⟩
    rw [hline]
    exact Machine.toNat_ofNat_lineAt hlen (Nat.le_of_lt hlt)

/-- The tokens of a scan are made of consecutive blocks of the lexemes. -/
theorem exists_blocks_parse (s : Scanner) (elapsed : Span)
    (hlen : source.length + 1 < UInt32.size) :
    ∃ blocks, blocks.flatten = lexemesIn source ∧
      List.Forall₂ (MadeOf source) blocks (s.parse elapsed source).value.last.tokens := by
  obtain ⟨cut, hflat, hcut⟩ := exists_blocks (Machine.scan source).tokens
  rw [tokens_scan] at hflat
  obtain ⟨blocks, hblocks, rfl⟩ := exists_flatten_of_map_eq hflat.symm
  refine ⟨blocks, hblocks, ?_⟩
  rw [List.forall₂_map_left_iff] at hcut
  have hmem : ∀ block ∈ blocks, ∀ l ∈ block, l ∈ lexemesIn source := by
    intro block hblock l hl
    rw [← hblocks]
    exact List.mem_flatten_of_mem hblock hl
  exact ((List.forall₂_and_left _ _).2 ⟨hmem, hcut⟩).imp fun block t h => .of_block h.2 h.1 hlen

/-- The lines of the tokens are among those of the lexemes, in the same order. -/
theorem lines_sublist_parse (s : Scanner) (elapsed : Span) (source : List UInt8) :
    ((s.parse elapsed source).value.last.tokens.map Token.line).Sublist
      ((lexemesIn source).map fun l => UInt32.ofNat (lineAt source l.offset)) := by
  obtain ⟨blocks, hflat, hblocks⟩ := exists_blocks (Machine.scan source).tokens
  have hlines := Block.lines_sublist hblocks
  rw [tokens_scan] at hflat
  rw [hflat, List.map_map] at hlines
  exact hlines

/-- The figures name the line of the opener of the construct that is left open. -/
theorem unterminated_parse (s : Scanner) (elapsed : Span) (source : List UInt8) :
    (s.parse elapsed source).value.last.metrics.unterminated? =
      (unclosedIn? source).map fun u => ⟨u.1, UInt32.ofNat (lineAt source u.2)⟩ := by
  have hscan : (s.parse elapsed source).value.last.metrics.unterminated? = _ :=
    unterminated_scan source
  rw [hscan, unclosedIn?, Option.map_map]
  refine Option.map_congr fun u hu => ?_
  obtain ⟨d, before, body, hnormal, -, -, rfl⟩ := opener_of_unclosed? hu
  have hle : 0 + before.length ≤ (normalize source).length := by
    rw [hnormal, List.length_append, List.length_append]
    omega
  rw [Function.comp_apply, lineAt_sourceOffset hle]

theorem pairwise_line_parse (s : Scanner) (elapsed : Span)
    (hlen : source.length + 1 < UInt32.size) :
    (s.parse elapsed source).value.last.tokens.Pairwise fun t t' => t.line ≤ t'.line := by
  rw [← List.pairwise_map]
  refine List.Pairwise.sublist (lines_sublist_parse s elapsed source) (List.pairwise_map.2 ?_)
  refine (pairwise_lexemesIn source).imp_of_mem fun {l l'} hl hl' hlt => ?_
  rw [UInt32.le_iff_toNat_le,
    Machine.toNat_ofNat_lineAt hlen (Nat.le_of_lt (mem_lexemesIn_lt hl)),
    Machine.toNat_ofNat_lineAt hlen (Nat.le_of_lt (mem_lexemesIn_lt hl'))]
  exact lineAt_mono source (Nat.le_of_lt hlt)

theorem line_mem_parse {s : Scanner} {elapsed : Span} (hlen : source.length + 1 < UInt32.size)
    (ht : t ∈ (s.parse elapsed source).value.last.tokens) :
    1 ≤ t.line ∧ t.line ≤ (s.parse elapsed source).value.last.metrics.lineCount := by
  have hline := (lines_sublist_parse s elapsed source).subset (List.mem_map_of_mem ht)
  obtain ⟨l, hl, heq⟩ := List.mem_map.1 hline
  have hlt := mem_lexemesIn_lt hl
  rw [← heq, lineCount_parse, UInt32.le_iff_toNat_le, UInt32.le_iff_toNat_le,
    Machine.toNat_ofNat_lineAt hlen (Nat.le_of_lt hlt),
    Machine.toNat_ofNat_lineAt hlen (Nat.sub_le _ _)]
  exact ⟨Nat.le_add_right _ _, lineAt_mono source (Nat.le_sub_one_of_lt hlt)⟩

/-- The lines of a scan are counted in the source. Each token is made of a block of lexemes
and is on the line of the first byte of the first of them; an open construct is on the line of
its opener. So the lines of the tokens do not decrease and lie between one and the line that
the scan ends on, and the counter is never moved on from the greatest number it can hold. -/
theorem lines_parse (s : Scanner) (elapsed : Span) {source : List UInt8}
    (hlen : source.length + 1 < UInt32.size) :
    let scan := (s.parse elapsed source).value.last
    (∃ blocks, blocks.flatten = lexemesIn source ∧
      List.Forall₂ (MadeOf source) blocks scan.tokens) ∧
    (∀ l ∈ lexemesIn source, source[l.offset]? = l.bytes.head?) ∧
    (scan.metrics.unterminated?.map fun u => (u.mode, u.line.toNat)) =
      ((unclosedIn? source).map fun u => (u.1, lineAt source u.2)) ∧
    (∀ u, unclosedIn? source = some u →
      ∃ d : Delimiter, u.1 = d.mode ∧ source[u.2]? = d.opener.head?) ∧
    (scan.tokens.Pairwise fun t t' => t.line ≤ t'.line) ∧
    (∀ t ∈ scan.tokens, 1 ≤ t.line ∧ t.line ≤ scan.metrics.lineCount) ∧
    ∀ (m : Machine) (raw : UInt8) (rest : List UInt8), Machine.Reaches source m (raw :: rest) →
      m.previous? = some Byte.lf → m.line.number.toNat + 1 < UInt32.size := by
  intro scan
  refine ⟨exists_blocks_parse s elapsed hlen, ?_, ?_, ?_, ?_, ?_, ?_⟩
  · intro l hl
    obtain ⟨b, w, hbytes, -, hfirst⟩ := mem_lexemesIn hl
    rw [hfirst, hbytes, List.head?_cons]
  · rw [unterminated_parse, Option.map_map]
    refine Option.map_congr fun u hu => ?_
    rw [Function.comp_apply, Machine.toNat_ofNat_lineAt hlen (Nat.le_of_lt (unclosedIn?_lt hu))]
  · intro u hu
    obtain ⟨d, hmode, -, hopener⟩ := opener_of_unclosedIn? hu
    exact ⟨d, hmode, hopener⟩
  · exact pairwise_line_parse s elapsed hlen
  · exact fun t ht => line_mem_parse hlen ht
  · intro m raw rest hreach hlf
    exact hreach.number_lt hlen hlf

/-- A closing quote on the line after its opener, joined with the operators on two lines, and
a comment that is left open behind them. -/
theorem lines_parse_closing_quote :
    let source : List UInt8 :=
      [0x61, 0x0D, 0x0A, 0x27, 0x62, 0x0D, 0x27, 0x2B, 0x0A, 0x3D, 0x2F, 0x2A]
    let scan := (({} : Scanner).parse {} source).value.last
    source.length + 1 < UInt32.size ∧
    (∃ blocks, blocks.flatten = [⟨[0x61], 0⟩, ⟨[0x27], 6⟩, ⟨[0x2B], 7⟩, ⟨[0x3D], 9⟩] ∧
      List.Forall₂ (MadeOf source) blocks scan.tokens) ∧
    lineAt source 6 = 3 ∧
    (scan.metrics.unterminated?.map fun u => (u.mode, u.line.toNat)) = some (.inComment, 4) ∧
    ∀ t ∈ scan.tokens, 1 ≤ t.line ∧ t.line ≤ scan.metrics.lineCount := by
  intro source scan
  have hlen : source.length + 1 < UInt32.size := by decide
  have hlexemes : lexemesIn source = [⟨[0x61], 0⟩, ⟨[0x27], 6⟩, ⟨[0x2B], 7⟩, ⟨[0x3D], 9⟩] := by cbv
  have hopen : unclosedIn? source = some (.inComment, 10) := by cbv
  obtain ⟨hblocks, -, hline, -, -, hbounds, -⟩ := lines_parse {} {} hlen
  rw [hlexemes] at hblocks
  rw [hopen] at hline
  exact ⟨hlen, hblocks, by decide, hline, hbounds⟩

end ScalaLex
