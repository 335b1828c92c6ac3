import ScalaLex.Proofs.LongerSources
import ScalaLex.Proofs.TokenLines

/-!
# Constructs without a closer

A source that ends inside a construct is cut before its opener (`EndsInside`) : the pieces of
the source up to the opener are whole, and behind the opener no closer counts. An opener
continues no word and no number, so the source that ends at the cut has just those pieces
(`pieces_of_append`). The construct is one more piece, with no lexeme
(`EndsInside.progress_scan`).

So the tokens are those of the source before the opener, and the figures name the construct,
which a line comment is not (`open_construct_parse`).
-/

namespace ScalaLex

variable {b c : UInt8} {s v x y rest inner body before source w : List UInt8} {d : Delimiter}

/-! ## Pieces of a shorter source -/

/-- A byte that continues no word and no number. -/
def Byte.isBoundary (c : UInt8) : Bool := !(isWord c || isNumeric c || isSign c)

theorem isWord_of_isBoundary (h : Byte.isBoundary c = true) : Byte.isWord c = false := by
  simp only [Byte.isBoundary, Bool.not_eq_true', Bool.or_eq_false_iff] at h
  exact h.1.1

/-- A word ends where it ends in a longer source. -/
theorem takeWhile_isWord_of_boundary (h : Byte.isBoundary c = true) (s v : List UInt8) :
    (s ++ c :: v).takeWhile Byte.isWord = s.takeWhile Byte.isWord ∧
      (s ++ c :: v).dropWhile Byte.isWord = s.dropWhile Byte.isWord ++ c :: v := by
  have hword := isWord_of_isBoundary h
  induction s with
  | nil => simp [hword]
  | cons b s ih => cases hb : Byte.isWord b <;> simp [hb, ih]

/-- A number ends where it ends in a longer source. -/
theorem numberRun_of_boundary (h : Byte.isBoundary c = true) (before : UInt8) (s v : List UInt8) :
    numberRun before (s ++ c :: v) = numberRun before s := by
  induction s generalizing before with
  | nil =>
    simp only [Byte.isBoundary, Bool.not_eq_true', Bool.or_eq_false_iff] at h
    simp [numberRun, h.1.2, h.2]
  | cons b s ih => rw [List.cons_append, numberRun, numberRun, ih]

namespace Delimiter

theorem exists_opener_eq_cons (d : Delimiter) :
    ∃ c w, d.opener = c :: w ∧ Byte.isBoundary c = true := by
  cases d <;> exact ⟨_, _, rfl, by decide⟩

/-- A closer before the end of a shorter source counts there. -/
theorem close?_of_append (h : d.close? [] (s ++ v) = some (inner, rest ++ v)) :
    d.close? [] s = some (inner, rest) := by
  obtain ⟨hs, hend, hfirst⟩ := close?_eq_some_iff.1 h
  obtain rfl : s = inner ++ d.closer ++ rest := by
    rw [← List.append_assoc] at hs
    exact List.append_cancel_right hs
  refine close?_eq_some_iff.2 ⟨rfl, ?_, ?_⟩
  · rw [← List.append_assoc, closes_append (by simp)] at hend
    exact hend
  · intro x y hxy hx
    have hlen := congrArg List.length hxy
    simp only [List.length_append] at hlen
    rw [← hfirst x (y ++ v) (by rw [hxy, List.append_assoc]) hx, closes_append (by omega)]

/-- A construct that ends before a boundary ends there in the source up to the boundary. -/
theorem front_of_append (hc : Byte.isBoundary c = true)
    (h : (d.front (body ++ c :: v)).2 = x ++ c :: v) :
    d.front body = ((d.front (body ++ c :: v)).1, x) := by
  unfold front at h ⊢
  cases hclose : d.close? [] (body ++ c :: v) with
  | none =>
    rw [hclose] at h
    simp at h
  | some found =>
    obtain ⟨inner, rest⟩ := found
    rw [hclose] at h
    cases d with
    | char =>
      dsimp only at h ⊢
      obtain ⟨r, rfl⟩ : ∃ r, rest = r ++ c :: v := by
        refine ⟨rest.takeWhile Byte.isWord ++ x, ?_⟩
        rw [List.append_assoc, ← h, List.takeWhile_append_dropWhile]
      obtain ⟨htake, hdrop⟩ := takeWhile_isWord_of_boundary hc r v
      rw [hdrop] at h
      rw [close?_of_append hclose, htake, ← List.append_cancel_right h]
    | blockComment | lineComment | string =>
      dsimp only at h ⊢
      subst h
      rw [close?_of_append hclose]

theorem opener_prefix_bytes_front (d : Delimiter) (body : List UInt8) :
    d.opener <+: (d.front body).1.bytes := by
  unfold front Piece.bytes
  split
  · exact ⟨body, (List.append_nil _).symm⟩
  · rename_i inner rest _
    split
    · exact ⟨inner ++ (closer .char ++ rest.takeWhile Byte.isWord), by simp⟩
    · exact ⟨inner ++ d.closer, by simp⟩

end Delimiter

namespace Piece

/-- A piece that ends before a boundary is the front piece of the source up to the boundary. -/
theorem front_of_append (hc : Byte.isBoundary c = true)
    (h : (front b (rest ++ c :: v)).2 = x ++ c :: v) :
    front b rest = ((front b (rest ++ c :: v)).1, x) := by
  have hbytes : (front b (rest ++ c :: v)).1.bytes ++ x = b :: rest := by
    have := bytes_front b (rest ++ c :: v)
    rw [h, ← List.append_assoc, ← List.cons_append] at this
    exact List.append_cancel_right this
  cases hopen : Delimiter.opening? (b :: (rest ++ c :: v)) with
  | some d =>
    have hlong := (Delimiter.append_drop_of_opening? hopen).symm
    rw [front_opener hlong] at h hbytes ⊢
    -- the opener is part of the piece, and so of the shorter source
    obtain ⟨w, hw⟩ := d.opener_prefix_bytes_front ((b :: (rest ++ c :: v)).drop d.opener.length)
    have hshort : b :: rest = d.opener ++ (w ++ x) := by rw [← hbytes, ← hw, List.append_assoc]
    have hbody : (b :: (rest ++ c :: v)).drop d.opener.length = w ++ x ++ c :: v := by
      rw [← List.cons_append, hshort, List.append_assoc, List.drop_left]
    rw [hbody] at h ⊢
    rw [front_opener hshort, Delimiter.front_of_append hc h]
  | none =>
    have hshort : Delimiter.opening? (b :: rest) = none := by
      rw [Option.eq_none_iff_forall_ne_some]
      intro d hd
      rw [← List.cons_append, ← Delimiter.append_drop_of_opening? hd, List.append_assoc,
        Delimiter.opening?_opener] at hopen
      cases hopen
    unfold front at h ⊢
    rw [hopen] at h
    rw [hopen, hshort]
    dsimp only at h ⊢
    by_cases hdigit : Byte.isDigit b = true
    · have hrun : numberRun b rest <+: rest := ⟨_, numberRun_append_drop b rest⟩
      rw [if_pos hdigit, numberRun_of_boundary hc,
        List.drop_append_of_le_length hrun.length_le] at h
      rw [if_pos hdigit, if_pos hdigit, numberRun_of_boundary hc, List.append_cancel_right h]
    · rw [if_neg hdigit] at h ⊢
      rw [if_neg hdigit]
      by_cases hword : Byte.isWord b = true
      · obtain ⟨htake, hdrop⟩ := takeWhile_isWord_of_boundary hc rest v
        rw [if_pos hword, hdrop] at h
        rw [if_pos hword, if_pos hword, htake, List.append_cancel_right h]
      · rw [if_neg hword] at h ⊢
        rw [if_neg hword]
        split at h <;> rw [List.append_cancel_right h]
        · rw [if_pos ‹_›, if_pos ‹_›]
        · rw [if_neg ‹_›, if_neg ‹_›]

end Piece

/-- What stands behind some of the pieces of a source has the other ones. -/
theorem exists_of_pieces_eq_append {qs rs : List Piece} (h : pieces s = qs ++ rs) :
    ∃ t, s = qs.flatMap Piece.bytes ++ t ∧ pieces t = rs := by
  induction qs generalizing s with
  | nil => exact ⟨s, rfl, h⟩
  | cons q qs ih =>
    cases s with
    | nil =>
      rw [pieces] at h
      cases h
    | cons b rest =>
      rw [pieces, List.cons_append] at h
      obtain ⟨rfl, hrest⟩ := List.cons.inj h
      obtain ⟨t, ht, hrs⟩ := ih hrest
      refine ⟨t, ?_, hrs⟩
      rw [List.flatMap_cons, List.append_assoc, ← ht, Piece.bytes_front]

/-- Pieces up to a boundary are the pieces of the source up to the boundary. -/
theorem pieces_of_append (hc : Byte.isBoundary c = true) {ps : List Piece}
    (h : pieces (s ++ c :: v) = ps ++ pieces (c :: v)) : pieces s = ps := by
  induction ps generalizing s with
  | nil =>
    have hbytes := congrArg (List.flatMap Piece.bytes) h
    rw [List.nil_append, flatMap_bytes_pieces, flatMap_bytes_pieces] at hbytes
    rw [List.append_left_eq_self.1 hbytes, pieces]
  | cons p ps ih =>
    cases s with
    | nil =>
      have hlen := congrArg List.length h
      rw [List.nil_append, List.length_append, List.length_cons] at hlen
      omega
    | cons b rest =>
      rw [List.cons_append, pieces, List.cons_append] at h
      obtain ⟨hp, hrest⟩ := List.cons.inj h
      have hbehind : (Piece.front b (rest ++ c :: v)).2 = ps.flatMap Piece.bytes ++ c :: v := by
        rw [← flatMap_bytes_pieces (Piece.front b (rest ++ c :: v)).2, hrest, List.flatMap_append,
          flatMap_bytes_pieces]
      have hfront := Piece.front_of_append hc hbehind
      rw [hbehind] at hrest
      rw [pieces, hfront, hp, ih hrest]

/-! ## The cut before an opener -/

/-- The source ends inside the construct `d`, which is opened behind `before` with `body`
behind its opener : the opener stands where a piece of the source starts, and no closer that
counts comes behind it. -/
structure EndsInside (source : List UInt8) (d : Delimiter) (before body : List UInt8) : Prop where
  source_eq : source = before ++ d.opener ++ body
  outside : ∃ ps, pieces (normalize source) = ps ++ pieces (d.opener ++ normalize body)
  unclosed : d.close? [] (normalize body) = none

namespace EndsInside

theorem normalize_eq (h : EndsInside source d before body) :
    normalize source = normalize before ++ (d.opener ++ normalize body) := by
  have hopener : normalize d.opener = d.opener := by cases d <;> decide
  have hbefore : (d.opener ++ body).head? ≠ some Byte.lf := by
    cases d <;> exact fun hlf => absurd (Option.some.inj hlf) (by decide)
  have hbehind : d.opener.getLast? ≠ some Byte.cr := by cases d <;> decide
  rw [h.source_eq, List.append_assoc, normalize_append fun _ => hbefore,
    normalize_append fun hcr => absurd hcr hbehind, hopener]

/-- The construct is the last piece, behind the pieces of the source before its opener. -/
theorem pieces_eq (h : EndsInside source d before body) :
    pieces (normalize source) = pieces (normalize before) ++
      [⟨d.mode, d.opener ++ normalize body, [], !d.mode.swallowsInput⟩] := by
  obtain ⟨ps, hps⟩ := h.outside
  obtain ⟨c, w, hopener, hc⟩ := d.exists_opener_eq_cons
  have hlast : pieces (d.opener ++ normalize body) =
      [⟨d.mode, d.opener ++ normalize body, [], !d.mode.swallowsInput⟩] := by
    rw [d.pieces_opener, Delimiter.front, h.unclosed, pieces]
  rw [← hlast, hps]
  rw [h.normalize_eq, hopener, List.cons_append] at hps
  rw [pieces_of_append hc hps]

/-- Behind the opener the scan has nothing more to show than the construct. -/
theorem progress_scan (h : EndsInside source d before body) :
    (Machine.scan source).progress = (Machine.scan before).progress.add
      ⟨d.mode, d.opener ++ normalize body, [], !d.mode.swallowsInput⟩ := by
  rw [ScalaLex.progress_scan, ScalaLex.progress_scan before, h.pieces_eq, List.foldl_append]
  rfl

theorem tokens_eq (h : EndsInside source d before body) (s s' : Scanner)
    (elapsed elapsed' : Span) : (s.parse elapsed source).value.last.tokens =
      (s'.parse elapsed' before).value.last.tokens := by
  have htokens : (Machine.scan source).tokens = (Machine.scan before).tokens :=
    congrArg Progress.tokens h.progress_scan
  rw [tokens_last_parse, tokens_last_parse, htokens]

theorem unterminated_eq (h : EndsInside source d before body) (s : Scanner) (elapsed : Span) :
    (s.parse elapsed source).value.last.metrics.unterminated? =
      if d.mode.swallowsInput then some ⟨d.mode, UInt32.ofNat (lineAt before before.length)⟩
      else none := by
  have hline : (Machine.scan before).progress.line = UInt32.ofNat (lineAt before before.length) :=
    (Machine.flush_nextNumber _).trans (Machine.onLine_run before).nextNumber
  have hopen : (Machine.scan source).unterminated? = _ :=
    congrArg Progress.unterminated? h.progress_scan
  rw [Progress.add, hline] at hopen
  refine hopen.trans ?_
  cases d.mode.swallowsInput <;> rfl

end EndsInside

/-- A piece that is not closed is the last one, and is a construct without a closer. -/
theorem exists_of_unclosed? {offset : Nat} {u : Mode × Nat}
    (h : unclosed? offset (pieces s) = some u) : ∃ (d : Delimiter) (ps : List Piece)
      (body : List UInt8), pieces s = ps ++ pieces (d.opener ++ body) ∧
        d.close? [] body = none ∧ d.mode.swallowsInput = true := by
  fun_induction pieces s generalizing offset with
  | case1 => cases h
  | case2 b rest ih =>
    rw [unclosed?] at h
    by_cases hclosed : (Piece.front b rest).1.closed = true
    · rw [if_pos hclosed] at h
      obtain ⟨d, ps, body, hps, hnone, hmode⟩ := ih h
      exact ⟨d, (Piece.front b rest).1 :: ps, body, by rw [hps, List.cons_append], hnone, hmode⟩
    · obtain ⟨d, body, hs, hnone, hmode, -⟩ :=
        Piece.front_of_not_closed (Bool.eq_false_iff.2 hclosed)
      refine ⟨d, [], body, ?_, hnone, hmode⟩
      rw [← hs, pieces, List.nil_append]

/-- A scan that names an open construct has a source that ends inside it. -/
theorem exists_endsInside (h : (Machine.scan source).unterminated?.isSome = true) :
    ∃ d before body, EndsInside source d before body ∧ d.mode.swallowsInput = true := by
  rw [unterminated_scan, Option.isSome_map] at h
  obtain ⟨u, hu⟩ := Option.isSome_iff_exists.1 h
  obtain ⟨d, ps, body, hps, hnone, hmode⟩ := exists_of_unclosed? hu
  obtain ⟨t, ht, hpieces⟩ := exists_of_pieces_eq_append hps
  have htext : t = d.opener ++ body := by
    rw [← flatMap_bytes_pieces t, hpieces, flatMap_bytes_pieces]
  rw [htext] at ht
  obtain ⟨before, rest, hsource, -, rfl⟩ :=
    normalize_eq_append_append (List.count_eq_zero.1 d.count_opener) ht
  exact ⟨d, before, rest, ⟨by rw [hsource, List.append_assoc], ⟨ps, hps⟩, hnone⟩, hmode⟩

/-- The figures of a scan name an open construct exactly if the source ends inside a comment
or quoted literal whose closer never comes, and then they name that one; a line comment needs
no closer. What the source has before the opener of the construct it ends inside of gives its
tokens, and nothing behind the opener does. -/
theorem open_construct_parse (s s' : Scanner) (elapsed elapsed' : Span) (source : List UInt8) :
    (∀ u, (s.parse elapsed source).value.last.metrics.unterminated? = some u ↔
      ∃ d before body, EndsInside source d before body ∧ d ≠ .lineComment ∧
        u = ⟨d.mode, UInt32.ofNat (lineAt before before.length)⟩) ∧
    ∀ d before body, EndsInside source d before body →
      (d = .lineComment → (s.parse elapsed source).value.last.metrics.unterminated? = none) ∧
      (s.parse elapsed source).value.last.tokens =
        (s'.parse elapsed' before).value.last.tokens := by
  have hmode : ∀ d : Delimiter, d.mode.swallowsInput = true ↔ d ≠ .lineComment := by
    rintro (_ | _ | _ | _) <;> decide
  refine ⟨fun u => ⟨fun hu => ?_, ?_⟩, fun d before body h => ⟨?_, h.tokens_eq s s' _ _⟩⟩
  · obtain ⟨d, before, body, h, hswallows⟩ :=
      exists_endsInside (Option.isSome_iff_exists.2 ⟨u, hu⟩)
    rw [h.unterminated_eq, if_pos hswallows] at hu
    exact ⟨d, before, body, h, (hmode d).1 hswallows, (Option.some.inj hu).symm⟩
  · rintro ⟨d, before, body, h, hd, rfl⟩
    rw [h.unterminated_eq, if_pos ((hmode d).2 hd)]
  · rintro rfl
    exact h.unterminated_eq s elapsed

/-- A word that is pending at the opener of a string, with the opener of a comment in the string
that is no opener there. -/
theorem open_construct_parse_pending_word :
    let source : List UInt8 := [0x61, 0x0D, 0x62, 0x22, 0x2F, 0x2A]
    let scan := (({} : Scanner).parse {} source).value.last
    EndsInside source .string [0x61, 0x0D, 0x62] [0x2F, 0x2A] ∧
    scan.metrics.unterminated? = some ⟨.inString, 2⟩ ∧
    scan.tokens = [⟨.identifier, "a", 1⟩, ⟨.identifier, "b", 2⟩] := by
  intro source scan
  have hinside : EndsInside source .string [0x61, 0x0D, 0x62] [0x2F, 0x2A] :=
    ⟨rfl, ⟨[{ lexeme := [0x61] }, { skipped := [0x0A] }, { lexeme := [0x62] }], by cbv⟩, by cbv⟩
  obtain ⟨hopen, hcut⟩ := open_construct_parse {} {} {} {} source
  refine ⟨hinside, (hopen _).2 ⟨_, _, _, hinside, by decide, by decide⟩, ?_⟩
  have hraw : (Machine.scan [0x61, 0x0D, 0x62]).tokens =
      [⟨.identifier, "a", 1⟩, ⟨.identifier, "b", 2⟩] := by cbv
  refine (hcut _ _ _ hinside).2.trans ?_
  rw [tokens_last_parse, hraw]
  rfl

end ScalaLex
