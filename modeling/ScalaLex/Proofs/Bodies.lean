import Mathlib
import ScalaLex.Proofs.Appending

/-!
# Bodies leave no trace

A construct ends at the closer that is put behind its body, if the body is one that it can
have (`Delimiter.Encloses`) : then no closer counts before that one, and that one counts
(`close?_of_encloses`). Line ends are no part of an opener, an escape or a closer, so the
normalized body is one that the construct can have too.

What stands behind a space is scanned as it would be alone (`exists_progress_scan_space`).
There the construct is the front piece, and the only figure of its body that a scan adds up
is how many lines end in it (`progress_scan_enclosed`). So two sources that differ in the
body of one construct only, and not in how many lines end there, have the same tokens and
figures. Where the construct has no lexeme of its own, the tokens are those of a source that
has that many line feeds in its place (`parse_enclosed`).
-/

namespace ScalaLex

variable {b quote : UInt8} {c u v x y p q rest source : List UInt8} {d : Delimiter} {n : Nat}

/-! ## Bodies -/

/-- Every quote in a body is escaped, and the body does not escape what follows it. -/
def EscapesQuotes (quote : UInt8) (body : List UInt8) : Prop :=
  (∀ i < body.length, body[i]? = some quote → trailingBackslashes (body.take i) % 2 = 1) ∧
    trailingBackslashes body % 2 = 0

instance (quote : UInt8) (body : List UInt8) : Decidable (EscapesQuotes quote body) :=
  inferInstanceAs (Decidable (_ ∧ _))

/-- The bodies that a construct can have. -/
def Delimiter.Encloses : Delimiter → List UInt8 → Prop
  | blockComment, c => ¬[0x2A, 0x2F] <:+: c
  | lineComment, c => Byte.cr ∉ c ∧ Byte.lf ∉ c
  | string, c => EscapesQuotes 0x22 c
  | char, c => EscapesQuotes 0x27 c

instance : (d : Delimiter) → (c : List UInt8) → Decidable (d.Encloses c)
  | .blockComment, c => inferInstanceAs (Decidable (¬[0x2A, 0x2F] <:+: c))
  | .lineComment, c => inferInstanceAs (Decidable (Byte.cr ∉ c ∧ Byte.lf ∉ c))
  | .string, c => inferInstanceAs (Decidable (EscapesQuotes 0x22 c))
  | .char, c => inferInstanceAs (Decidable (EscapesQuotes 0x27 c))

theorem trailingBackslashes_normalize (source : List UInt8) :
    trailingBackslashes (normalize source) = trailingBackslashes source := by
  induction source using List.reverseRecOn with
  | nil => rfl
  | append_singleton u b ih =>
    by_cases hb : b = 0x5C
    · have hseam : normalize (u ++ [b]) = normalize u ++ [b] := by
        rw [hb]
        exact normalize_append fun _ => by decide
      rw [hseam, Machine.trailingBackslashes_append, Machine.trailingBackslashes_append, ih]
    · have hlast := getLast?_normalize (u ++ [b])
      rw [List.getLast?_append, List.getLast?_singleton, Option.some_or, Option.map_some] at hlast
      obtain ⟨w, hw⟩ := List.getLast?_eq_some_iff.1 hlast
      have hend : (if b == Byte.cr then Byte.lf else b) ≠ 0x5C := by
        split
        · decide
        · exact hb
      rw [hw, Machine.trailingBackslashes_append, if_neg hend, Machine.trailingBackslashes_append,
        if_neg hb]

theorem EscapesQuotes.odd (h : EscapesQuotes quote c) (hquote : quote ≠ Byte.lf)
    (hc : normalize c = x ++ quote :: y) : trailingBackslashes x % 2 = 1 := by
  obtain ⟨u, v, rfl, rfl, -⟩ := normalize_eq_append_cons hc hquote
  have hodd := h.1 u.length (by simp) (by simp)
  rwa [List.take_left, ← trailingBackslashes_normalize] at hodd

/-- The two bytes stand side by side in the body. -/
theorem infix_of_normalize_eq {e : UInt8} (hb : b ≠ Byte.lf) (he : e ≠ Byte.lf)
    (hc : normalize c = x ++ b :: e :: y) : [b, e] <:+: c := by
  obtain ⟨u, v, rfl, rfl, hv⟩ := normalize_eq_append_cons hc hb
  obtain ⟨s, v, rfl, hs, -⟩ := normalize_eq_append_cons (x := []) hv he
  have hnil : s = [] := by
    have hlast := getLast?_normalize s
    rw [hs, List.getLast?_nil] at hlast
    simpa using hlast.symm
  exact ⟨u, v, by simp [hnil]⟩

/-- No closer counts in a body that the construct can have. -/
theorem Delimiter.closes_of_encloses (h : d.Encloses c) (hx : normalize c = x ++ b :: y)
    (rest : List UInt8) : d.closes x (b :: y ++ d.closer ++ rest) = false := by
  rw [Bool.eq_false_iff]
  intro hclose
  have happend := append_drop_of_closes hclose
  cases d with
  | blockComment =>
    obtain ⟨rfl, hnext⟩ := List.cons.inj happend
    cases y with
    | nil => cases hnext
    | cons e y =>
      obtain ⟨rfl, -⟩ := List.cons.inj hnext
      exact h (infix_of_normalize_eq (by decide) (by decide) hx)
  | lineComment =>
    obtain ⟨rfl, -⟩ := List.cons.inj happend
    rw [normalize_eq_self h.1] at hx
    exact h.2 (by simp [hx])
  | string | char =>
    obtain ⟨rfl, -⟩ := List.cons.inj happend
    have hodd := EscapesQuotes.odd h (by decide) hx
    simp [closes, isQuote, hodd] at hclose

/-- The closer behind a body counts. -/
theorem Delimiter.closes_closer (h : d.Encloses c) (rest : List UInt8) :
    d.closes (normalize c) (d.closer ++ rest) = true := by
  have hprefix : d.closer.isPrefixOf (d.closer ++ rest) = true :=
    List.isPrefixOf_iff_prefix.2 (List.prefix_append _ _)
  rw [closes, hprefix, Bool.true_and, trailingBackslashes_normalize]
  cases d with
  | blockComment | lineComment => rfl
  | string | char => simp [isQuote, h.2]

/-- The construct ends at the closer that is put behind its body. -/
theorem Delimiter.close?_of_encloses (h : d.Encloses c) (rest : List UInt8) :
    d.close? [] (normalize c ++ d.closer ++ rest) = some (normalize c, rest) := by
  refine close?_eq_some_iff.2 ⟨rfl, closes_closer h rest, ?_⟩
  intro u v huv hu
  rw [List.append_assoc] at huv
  rcases List.append_eq_append_iff.1 huv with ⟨z, rfl, -⟩ | ⟨z, hz, rfl⟩
  · rw [List.length_append] at hu
    omega
  · cases z with
    | nil => simp [hz] at hu
    | cons b z =>
      rw [← List.append_assoc]
      exact closes_of_encloses h hz rest

/-! ## Pieces of both sources -/

theorem pieces_blank (h : Byte.isBlank b = true) (rest : List UInt8) :
    pieces (b :: rest) = { skipped := [b] } :: pieces rest := by
  rw [pieces, Piece.front_blank h]

/-- Openers and closers stand in the normalized source as they stand in the source. -/
theorem Delimiter.normalize_enclosed (h : d.Encloses c) (q : List UInt8) :
    normalize (d.opener ++ c ++ d.closer ++ q) =
      d.opener ++ (normalize c ++ d.closer ++ normalize q) := by
  have hopener : normalize d.opener = d.opener := by cases d <;> decide
  have hcloser : normalize d.closer = d.closer := by cases d <;> decide
  have hbefore : d.opener.getLast? ≠ some Byte.cr := by cases d <;> decide
  have hbehind : d.closer.getLast? ≠ some Byte.cr := by cases d <;> decide
  have hbody : c.getLast? = some Byte.cr → (d.closer ++ q).head? ≠ some Byte.lf := by
    intro hlast
    cases d with
    | lineComment => exact absurd (List.mem_of_getLast? hlast) h.1
    | blockComment | string | char =>
      rw [closer, List.cons_append, List.head?_cons]
      decide
  rw [List.append_assoc, List.append_assoc, normalize_append fun hcr => absurd hcr hbefore,
    normalize_append hbody, normalize_append fun hcr => absurd hcr hbehind, hopener, hcloser,
    List.append_assoc]

theorem normalize_lineFeeds (n : Nat) (q : List UInt8) :
    normalize (List.replicate n Byte.lf ++ 0x20 :: q) =
      List.replicate n Byte.lf ++ 0x20 :: normalize q := by
  have hself : Byte.cr ∉ List.replicate n Byte.lf := fun hcr =>
    absurd (List.eq_of_mem_replicate hcr) (by decide)
  rw [normalize_append fun _ => by rw [List.head?_cons]; decide, normalize_eq_self hself]
  rfl

namespace Progress

/-- Pieces that differ in skipped bytes only add the same, if as many lines end in them. -/
theorem add_congr (o : Progress) {p p' : Piece} (hmode : p.mode = p'.mode)
    (hlexeme : p.lexeme = p'.lexeme) (hclosed : p.closed = p'.closed)
    (hcount : p.skipped.count Byte.lf = p'.skipped.count Byte.lf) : o.add p = o.add p' := by
  have hbytes : p.bytes.count Byte.lf = p'.bytes.count Byte.lf := by
    rw [Piece.bytes, Piece.bytes, List.count_append, List.count_append, hcount, hlexeme]
  rw [add, add, hmode, hlexeme, hclosed, hcount, hbytes]

theorem add_blank {o : Progress} (h : o.unterminated? = none) (b : UInt8) :
    o.add { skipped := [b] } = { o with line := o.line + UInt32.ofNat ([b].count Byte.lf) } := by
  rw [add, Piece.bytes, List.append_nil]
  ext1
  · rfl
  · rfl
  · rfl
  · exact h.symm

/-- Line feeds move what follows down. -/
theorem foldl_add_lineFeeds {o : Progress} (h : o.unterminated? = none) (n : Nat)
    (rest : List UInt8) : (pieces (List.replicate n Byte.lf ++ rest)).foldl add o =
      (pieces rest).foldl add { o with line := o.line + UInt32.ofNat n } := by
  induction n generalizing o with
  | zero =>
    have hself : { o with line := o.line + UInt32.ofNat 0 } = o := by
      ext1 <;> simp
    rw [hself]
    rfl
  | succ n ih =>
    have hcount : o.line + UInt32.ofNat ([Byte.lf].count Byte.lf) + UInt32.ofNat n =
        o.line + UInt32.ofNat (n + 1) := by
      rw [UInt32.add_assoc, ← UInt32.ofNat_add, Nat.add_comm n]
      rfl
    rw [List.replicate_succ, List.cons_append, pieces_blank rfl, List.foldl_cons, add_blank h,
      ← hcount]
    exact ih h

/-- Lexemes are finished on lines counted from the one where the pieces start. -/
theorem finished_foldl_add_congr {o o' : Progress} (hline : o.line = o'.line)
    (hfinished : o.finished = o'.finished) (h : o.unterminated? = none)
    (h' : o'.unterminated? = none) (ps : List Piece) :
    (ps.foldl add o).finished = (ps.foldl add o').finished := by
  rw [foldl_add_eq_append h, foldl_add_eq_append h', append, append, hline, hfinished]

end Progress

namespace Machine

variable {c₁ c₂ : List UInt8}

/-! ## Scans of both sources -/

/-- Behind a space a source is scanned as it would be alone, further down. -/
theorem exists_progress_scan_space (hp : (scan p).mode = .regular ∨ (scan p).mode = .inNumber) :
    ∃ o : Progress, ∀ source : List UInt8,
      (scan (p ++ 0x20 :: source)).progress = o.append (scan source).progress := by
  rw [scan, flush_mode] at hp
  obtain ⟨m, hmode, hpending, hrun⟩ := exists_run_blank (b := 0x20) hp rfl (by decide)
  refine ⟨m.progress, fun source => ?_⟩
  rw [scan, run_append _ (Or.inr rfl), hrun, progress_run_eq_append hmode hpending]

/-- A scan adds up how many lines end in the body of a construct, and nothing else of it. -/
theorem progress_scan_enclosed (h₁ : d.Encloses c₁) (h₂ : d.Encloses c₂)
    (hlines : lineEndsBefore c₁ c₁.length = lineEndsBefore c₂ c₂.length) (q : List UInt8) :
    (scan (d.opener ++ c₁ ++ d.closer ++ q)).progress =
      (scan (d.opener ++ c₂ ++ d.closer ++ q)).progress := by
  have hcount : (normalize c₁).count Byte.lf = (normalize c₂).count Byte.lf := by
    rw [count_lf_normalize, count_lf_normalize, hlines]
  rw [progress_scan, progress_scan, Delimiter.normalize_enclosed h₁,
    Delimiter.normalize_enclosed h₂, Delimiter.pieces_opener, Delimiter.pieces_opener,
    List.foldl_cons, List.foldl_cons, Delimiter.front, Delimiter.front,
    Delimiter.close?_of_encloses h₁, Delimiter.close?_of_encloses h₂]
  cases d with
  | char =>
    refine congrArg (fun o => List.foldl Progress.add o _) (Progress.add_congr _ rfl rfl rfl ?_)
    rw [List.count_append, List.count_append, hcount]
  | blockComment | lineComment | string =>
    refine congrArg (fun o => List.foldl Progress.add o _) (Progress.add_congr _ rfl rfl rfl ?_)
    rw [List.count_append, List.count_append, List.count_append, List.count_append, hcount]

/-- A construct with no lexeme finishes what follows it where line feeds in its place would. -/
theorem finished_scan_enclosed (h : d.Encloses c) (hd : d = .blockComment ∨ d = .string)
    (hn : lineEndsBefore c c.length = n) (q : List UInt8) :
    (scan (d.opener ++ c ++ d.closer ++ q)).progress.finished =
      (scan (List.replicate n Byte.lf ++ 0x20 :: q)).progress.finished := by
  have hclosed : d.close? [] (normalize c ++ d.closer ++ normalize q) =
      some (normalize c, normalize q) := Delimiter.close?_of_encloses h _
  rw [progress_scan, progress_scan, Delimiter.normalize_enclosed h, normalize_lineFeeds,
    Delimiter.pieces_opener, List.foldl_cons, Progress.foldl_add_lineFeeds rfl,
    pieces_blank rfl, List.foldl_cons, Progress.add_blank rfl, Delimiter.front, hclosed]
  have hcount : (d.opener ++ normalize c ++ d.closer ++ []).count Byte.lf = n := by
    have hcloser : d.closer.count Byte.lf = 0 := by rcases hd with rfl | rfl <;> decide
    rw [List.append_nil, List.count_append, List.count_append, d.count_opener, hcloser,
      Nat.zero_add, Nat.add_zero, count_lf_normalize, hn]
  have hline : (1 : UInt32) + UInt32.ofNat ((d.opener ++ normalize c ++ d.closer ++ []).count
      Byte.lf) = 1 + UInt32.ofNat n + UInt32.ofNat 0 := by
    rw [hcount]
    exact (UInt32.add_zero _).symm
  rcases hd with rfl | rfl
  all_goals
    refine Progress.finished_foldl_add_congr ?_ ?_ ?_ ?_ _
    exacts [hline, rfl, rfl, rfl]

end Machine

/-- Scans that have the same to show, over sources with the same last byte, have the same
tokens and the same figures but for their size and the time taken. -/
theorem parse_eq_of_progress_eq (s : Scanner) (elapsed elapsed' : Span)
    (hlast : u.getLast? = some b) (hlast' : v.getLast? = some b)
    (h : (Machine.scan u).progress = (Machine.scan v).progress) :
    (s.parse elapsed u).value.last.tokens = (s.parse elapsed' v).value.last.tokens ∧
      { (s.parse elapsed u).value.last.metrics with bytesScanned := 0, elapsed := {} } =
        { (s.parse elapsed' v).value.last.metrics with bytesScanned := 0, elapsed := {} } := by
  have hnumber : (Machine.scan u).line.number = (Machine.scan v).line.number := by
    have hline := congrArg Progress.line h
    rw [Machine.progress_line_scan hlast, Machine.progress_line_scan hlast'] at hline
    exact (UInt32.add_left_inj _).1 hline
  have htokens : (Machine.scan u).tokens = (Machine.scan v).tokens :=
    congrArg (fun o : Progress => o.finished.reverse.filterMap Lexeme.token?) h
  have hopened : (Machine.scan u).opened = (Machine.scan v).opened := congrArg Progress.opened h
  have hopen : (Machine.scan u).unterminated? = (Machine.scan v).unterminated? :=
    congrArg Progress.unterminated? h
  rw [Scanner.last_parse, Scanner.last_parse, Scan.ofSource, Scan.ofSource, Scan.ofMachine,
    Scan.ofMachine, hnumber, htokens, hopened, hopen]
  exact ⟨rfl, rfl⟩

/-- The body of a comment or quoted literal behind a space has no part in the tokens. Any two
bodies that the construct can have and in which as many lines end give the same tokens and
the same figures. A block comment or a string gives the tokens that line feeds and a space
in its place would. -/
theorem parse_enclosed (s : Scanner) (elapsed₁ elapsed₂ elapsed₃ : Span) {c₁ c₂ : List UInt8}
    (hp : (Machine.scan p).mode = .regular ∨ (Machine.scan p).mode = .inNumber)
    (h₁ : d.Encloses c₁) (h₂ : d.Encloses c₂)
    (hn₁ : lineEndsBefore c₁ c₁.length = n) (hn₂ : lineEndsBefore c₂ c₂.length = n)
    (q : List UInt8) :
    let first := (s.parse elapsed₁ (p ++ 0x20 :: (d.opener ++ c₁ ++ d.closer ++ q))).value.last
    let second := (s.parse elapsed₂ (p ++ 0x20 :: (d.opener ++ c₂ ++ d.closer ++ q))).value.last
    let blanks := (s.parse elapsed₃
      (p ++ 0x20 :: (List.replicate n Byte.lf ++ 0x20 :: q))).value.last
    first.tokens = second.tokens ∧
    { first.metrics with bytesScanned := 0, elapsed := {} } =
      { second.metrics with bytesScanned := 0, elapsed := {} } ∧
    (d = .blockComment ∨ d = .string → first.tokens = blanks.tokens) := by
  intro first second blanks
  obtain ⟨o, hspace⟩ := Machine.exists_progress_scan_space hp
  have hprogress : (Machine.scan (p ++ 0x20 :: (d.opener ++ c₁ ++ d.closer ++ q))).progress =
      (Machine.scan (p ++ 0x20 :: (d.opener ++ c₂ ++ d.closer ++ q))).progress := by
    rw [hspace, hspace, Machine.progress_scan_enclosed h₁ h₂ (hn₁.trans hn₂.symm)]
  obtain ⟨b, hb⟩ := Option.isSome_iff_exists.1 (List.getLast?_isSome.2
    (List.append_ne_nil_of_left_ne_nil d.closer_ne_nil q))
  have hlast : ∀ c, (p ++ 0x20 :: (d.opener ++ c ++ d.closer ++ q)).getLast? = some b := by
    intro c
    rw [List.append_assoc _ d.closer, ← List.cons_append, ← List.append_assoc,
      List.getLast?_append, hb, Option.some_or]
  obtain ⟨htokens, hmetrics⟩ :=
    parse_eq_of_progress_eq s elapsed₁ elapsed₂ (hlast c₁) (hlast c₂) hprogress
  refine ⟨htokens, hmetrics, fun hd => ?_⟩
  have hfinished :
      (Machine.scan (p ++ 0x20 :: (d.opener ++ c₁ ++ d.closer ++ q))).progress.finished =
        (Machine.scan (p ++ 0x20 :: (List.replicate n Byte.lf ++ 0x20 :: q))).progress.finished := by
    rw [hspace, hspace, Progress.append, Progress.append,
      Machine.finished_scan_enclosed h₁ hd hn₁]
  exact congrArg (fun ls : List Lexeme => (joinOperators (ls.reverse.filterMap
    Lexeme.token?)).tokens) hfinished

/-- Behind a number, a body with an escaped quote and one with an opener and backslashes. -/
theorem parse_enclosed_escaped_quote :
    let p : List UInt8 := [0x31, 0x65]
    let c₁ : List UInt8 := [0x5C, 0x22, 0x0D]
    let c₂ : List UInt8 := [0x2F, 0x2A, 0x0A, 0x5C, 0x5C]
    let q : List UInt8 := [0x2B, 0x27]
    let d : Delimiter := .string
    let scan (c : List UInt8) :=
      (({} : Scanner).parse {} (p ++ 0x20 :: (d.opener ++ c ++ d.closer ++ q))).value.last
    (Machine.scan p).mode = .inNumber ∧ d.Encloses c₁ ∧ d.Encloses c₂ ∧
    lineEndsBefore c₁ c₁.length = 1 ∧ lineEndsBefore c₂ c₂.length = 1 ∧
    (scan c₁).tokens = [⟨.literal, "1e", 1⟩, ⟨.operator, "+", 2⟩] ∧
    (scan c₂).tokens = [⟨.literal, "1e", 1⟩, ⟨.operator, "+", 2⟩] ∧
    { (scan c₁).metrics with bytesScanned := 0, elapsed := {} } =
      { (scan c₂).metrics with bytesScanned := 0, elapsed := {} } := by
  intro p c₁ c₂ q d scan
  have hmode : (Machine.scan p).mode = .inNumber := by cbv
  have h₁ : d.Encloses c₁ := by decide
  have h₂ : d.Encloses c₂ := by decide
  have hn₁ : lineEndsBefore c₁ c₁.length = 1 := by decide
  have hn₂ : lineEndsBefore c₂ c₂.length = 1 := by decide
  have hraw : (Machine.scan (p ++ 0x20 :: (List.replicate 1 Byte.lf ++ 0x20 :: q))).tokens =
      [⟨.literal, "1e", 1⟩, ⟨.operator, "+", 2⟩] := by cbv
  have hblanks : (({} : Scanner).parse {} (p ++ 0x20 :: (List.replicate 1 Byte.lf ++
      0x20 :: q))).value.last.tokens = [⟨.literal, "1e", 1⟩, ⟨.operator, "+", 2⟩] := by
    rw [tokens_last_parse, hraw]
    rfl
  obtain ⟨htokens, hmetrics, hgone⟩ := parse_enclosed {} {} {} {} (Or.inr hmode) h₁ h₂ hn₁ hn₂ q
  have hfirst : (scan c₁).tokens = [⟨.literal, "1e", 1⟩, ⟨.operator, "+", 2⟩] :=
    (hgone (Or.inr rfl)).trans hblanks
  exact ⟨hmode, h₁, h₂, hn₁, hn₂, hfirst, htokens.symm.trans hfirst, hmetrics⟩

end ScalaLex
