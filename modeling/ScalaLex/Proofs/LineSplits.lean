import ScalaLex.Proofs.Appending
import ScalaLex.Proofs.TokenLines

/-!
# Sources cut behind a line

Behind a line feed the machine is outside every construct with nothing pending, unless a
comment or quoted literal goes on there (`Resting`). So a source that ends with a line feed,
and inside no construct, can be scanned on its own : what comes behind it has the lexemes,
the constructs and the open construct that it has alone, as many lines further down as
there were lines before it (`progress_scan_append`). The tokens are those of both parts,
with operators joined across the cut only (`parse_append`).
-/

namespace ScalaLex

variable {a b source rest : List UInt8}

namespace Machine

variable {m : Machine} {raw : UInt8}

/-! ## Behind a line feed -/

/-- What is pending between two steps : nothing inside a comment or quoted literal. Behind a
line feed nothing is pending at all, and no line comment or number goes on. -/
structure Resting (m : Machine) : Prop where
  inside : m.mode = .regular ∨ m.mode = .inNumber ∨ m.pending = []
  behindLine : m.previous? = some Byte.lf →
    m.pending = [] ∧ (m.mode = .regular ∨ m.mode.swallowsInput = true)

theorem regular_inside (hm : m.mode = .regular) (b : UInt8) (next? : Option UInt8) :
    (m.regular b next?).machine.mode = .regular ∨ (m.regular b next?).machine.mode = .inNumber ∨
      (m.regular b next?).machine.pending = [] := by
  unfold regular
  repeat' split
  all_goals simp [enter, push, hm]

/-- A dispatched byte is put to what is pending in no comment and no quoted literal. -/
theorem dispatch_inside (h : m.mode = .regular ∨ m.mode = .inNumber ∨ m.pending = [])
    (b : UInt8) (next? : Option UInt8) :
    (m.dispatch b next?).machine.mode = .regular ∨ (m.dispatch b next?).machine.mode = .inNumber ∨
      (m.dispatch b next?).machine.pending = [] := by
  unfold dispatch quoted
  cases hm : m.mode with
  | regular => exact regular_inside hm b next?
  | inNumber =>
    dsimp only
    split
    · exact Or.inr (Or.inl rfl)
    · exact regular_inside rfl b next?
  | inString | inChar | inComment | inLineComment =>
    have hp : m.pending = [] := by simpa [hm] using h
    dsimp only
    repeat' split
    all_goals simp [hp]

/-- A line feed ends line comments, numbers and words. -/
theorem endLine_behindLine (h : m.mode = .regular ∨ m.mode = .inNumber ∨ m.pending = []) :
    m.endLine.pending = [] ∧ (m.endLine.mode = .regular ∨ m.endLine.mode.swallowsInput = true) := by
  unfold endLine
  cases hm : m.mode with
  | regular => exact ⟨flush_pending m, Or.inl ((flush_mode m).trans hm)⟩
  | inNumber => exact ⟨flush_pending _, Or.inl (flush_mode _)⟩
  | inLineComment => exact ⟨by simpa [hm] using h, Or.inl rfl⟩
  | inString | inChar | inComment =>
    exact ⟨by simpa [hm] using h, Or.inr (congrArg Mode.swallowsInput hm)⟩

theorem Resting.advance (h : Resting m) (raw : UInt8) (rest : List UInt8) :
    Resting (m.advance raw rest).1 := by
  cases hpair : opensPair raw rest with
  | true =>
    rw [advance_pair m hpair]
    refine ⟨?_, fun hlf => absurd (Option.some.inj hlf) (by decide)⟩
    unfold startByte
    split <;> exact h.inside
  | false =>
    rw [advance_cons m hpair]
    generalize (if raw == Byte.cr then Byte.lf else raw) = b
    have hstart : (m.startOn b).mode = .regular ∨ (m.startOn b).mode = .inNumber ∨
        (m.startOn b).pending = [] := h.inside
    rw [read_eq]
    refine ⟨dispatch_inside hstart b rest.head?, fun hlf => ?_⟩
    obtain rfl : b = Byte.lf := (dispatch_remembered_eq_lf _ _ _).1 (Option.some.inj hlf)
    rw [dispatch_lf]
    exact endLine_behindLine hstart

theorem Reaches.resting (h : Reaches source m rest) : Resting m := by
  induction h with
  | start => exact ⟨Or.inl rfl, nofun⟩
  | step _ ih => exact ih.advance _ _

/-- A source that ends with a line feed, and inside no construct, leaves the machine outside
every construct with nothing pending. -/
theorem run_of_getLast?_lf (hlf : a.getLast? = some Byte.lf)
    (hclosed : (scan a).unterminated? = none) :
    (({} : Machine).run a).mode = .regular ∧ (({} : Machine).run a).pending = [] := by
  have hpos : 0 < a.length := List.length_pos_iff.2 fun hnil => by simp [hnil] at hlf
  have hprevious : (({} : Machine).run a).previous? = some Byte.lf := by
    rw [(onLine_run a).previous, endsLineAt_last hlf]
    exact ⟨hpos, rfl⟩
  have hreach : Reaches a (({} : Machine).run a) [] := Reaches.start.run
  obtain ⟨hpending, hmode⟩ := hreach.resting.behindLine hprevious
  refine ⟨hmode.resolve_right fun hswallows => ?_, hpending⟩
  rw [scan, flush_of_pending_eq_nil hpending, Machine.unterminated?, if_pos hswallows] at hclosed
  cases hclosed

/-- The scan of a source behind a line goes on as it would alone. -/
theorem progress_scan_append (hlf : a.getLast? = some Byte.lf)
    (hclosed : (scan a).unterminated? = none) (b : List UInt8) :
    (scan (a ++ b)).progress = (scan a).progress.append (scan b).progress := by
  obtain ⟨hmode, hpending⟩ := run_of_getLast?_lf hlf hclosed
  have hseam : ∀ c ∈ a.getLast?, c = Byte.lf := by
    rw [hlf]
    rintro c ⟨⟩
    rfl
  have hself : scan a = ({} : Machine).run a := flush_of_pending_eq_nil hpending
  rw [scan, run_append _ (Or.inl hseam), progress_run_eq_append hmode hpending, hself]

/-- Behind a line feed the next line is the one after the line that the scan ends on. -/
theorem progress_line_of_getLast?_lf (hlf : a.getLast? = some Byte.lf) :
    (scan a).progress.line - 1 = (scan a).line.number := by
  rw [progress_line_scan hlf]
  exact UInt32.add_sub_cancel _ 1

theorem tokens_scan_append (hlf : a.getLast? = some Byte.lf)
    (hclosed : (scan a).unterminated? = none) (b : List UInt8) :
    (scan (a ++ b)).tokens =
      (scan a).tokens ++ (scan b).tokens.map (Token.shift (scan a).line.number) := by
  have hfinished := congrArg Progress.finished (progress_scan_append hlf hclosed b)
  have hlexemes : (scan (a ++ b)).lexemes =
      (scan a).lexemes ++ (scan b).lexemes.map (Lexeme.shift (scan a).line.number) := by
    rw [← progress_line_of_getLast?_lf hlf, lexemes, lexemes, lexemes, List.map_reverse,
      ← List.reverse_append]
    exact congrArg List.reverse hfinished
  rw [tokens, tokens, tokens, hlexemes, List.filterMap_append, Lexeme.filterMap_token?_shift]

end Machine

/-! ## Lines of both parts -/

/-- The lines of both parts fit the counter. -/
theorem toNat_add_lineCount {offset : Nat} (hne : a ≠ [])
    (hlen : (a ++ b).length + 1 < UInt32.size) (hlt : offset < b.length) :
    (UInt32.ofNat (lineAt b offset) + (Machine.scan a).line.number).toNat =
      (UInt32.ofNat (lineAt b offset)).toNat + (Machine.scan a).line.number.toNat := by
  have hpos := List.length_pos_iff.2 hne
  have ha := lineEndsBefore_le a (a.length - 1)
  have hb := lineEndsBefore_le b offset
  rw [List.length_append] at hlen
  rw [scan_number, UInt32.toNat_add, Machine.toNat_ofNat_lineAt (by omega) (Nat.sub_le _ _),
    Machine.toNat_ofNat_lineAt (by omega) (Nat.le_of_lt hlt), Nat.mod_eq_of_lt]
  rw [lineAt, lineAt]
  have : UInt32.size = 2 ^ 32 := rfl
  omega

theorem opened_parse (s : Scanner) (elapsed : Span) (source : List UInt8) :
    (s.parse elapsed source).value.last.metrics.opened =
      if s.preferences.collectDetails then (Machine.scan source).opened else {} := rfl

/-- A source is cut behind a line feed where no construct is open. What comes behind it has
the raw tokens, the constructs and the open construct that it has alone, further down by the
lines before it; the tokens are the raw tokens of both parts joined, and where no operator
meets one that takes it in at the cut, the tokens of both parts. -/
theorem parse_append (s : Scanner) (elapsed elapsed₁ elapsed₂ : Span)
    (hlf : a.getLast? = some Byte.lf)
    (hclosed : (s.parse elapsed₁ a).value.last.metrics.unterminated? = none)
    (hlen : (a ++ b).length + 1 < UInt32.size) :
    let first := (s.parse elapsed₁ a).value.last
    let second := (s.parse elapsed₂ b).value.last
    let whole := (s.parse elapsed (a ++ b)).value.last
    let k := first.metrics.lineCount
    let raw := (Machine.scan a).tokens ++ (Machine.scan b).tokens.map (Token.shift k)
    (Machine.scan (a ++ b)).tokens = raw ∧
    (∀ t ∈ (Machine.scan b).tokens, (t.shift k).line.toNat = t.line.toNat + k.toNat) ∧
    whole.metrics.opened = first.metrics.opened.add second.metrics.opened ∧
    whole.metrics.unterminated? = second.metrics.unterminated?.map (Unterminated.shift k) ∧
    (∀ u ∈ second.metrics.unterminated?, (u.shift k).line.toNat = u.line.toNat + k.toNat) ∧
    whole.tokens = (joinOperators raw).tokens ∧
    ((∀ last ∈ first.tokens.getLast?, ∀ next ∈ second.tokens.head?, last.kind ≠ .operator ∨
        isHardPunctuation last.value = true ∨ next.kind ≠ .operator) →
      whole.tokens = first.tokens ++ second.tokens.map (Token.shift k)) := by
  intro first second whole k raw
  have hne : a ≠ [] := fun hnil => by simp [hnil] at hlf
  have hprogress := Machine.progress_scan_append hlf hclosed b
  have hraw : (Machine.scan (a ++ b)).tokens = raw := Machine.tokens_scan_append hlf hclosed b
  have htokens : whole.tokens = (joinOperators raw).tokens := by rw [tokens_last_parse, hraw]
  refine ⟨hraw, ?_, ?_, ?_, ?_, htokens, ?_⟩
  · intro t ht
    rw [tokens_scan] at ht
    obtain ⟨l, hl, rfl⟩ := List.mem_map.1 ht
    exact toNat_add_lineCount hne hlen (mem_lexemesIn_lt hl)
  · rw [opened_parse, opened_parse, opened_parse]
    cases s.preferences.collectDetails with
    | true => exact congrArg Progress.opened hprogress
    | false => rfl
  · have hopen := congrArg Progress.unterminated? hprogress
    rw [Progress.append, Machine.progress_line_of_getLast?_lf hlf] at hopen
    exact hopen
  · intro u hu
    rw [Option.mem_def, unterminated_parse] at hu
    obtain ⟨v, hv, rfl⟩ := Option.map_eq_some_iff.1 hu
    exact toNat_add_lineCount hne hlen (unclosedIn?_lt hv)
  · intro hcut
    rw [htokens]
    exact tokens_joinOperators_append_shift k hcut

/-- An operator behind a bracket and a line comment, and a string that is left open behind it. -/
theorem parse_append_bracket :
    let a : List UInt8 := [0x31, 0x28, 0x2F, 0x2F, 0x0D, 0x0A]
    let b : List UInt8 := [0x3D, 0x0D, 0x22]
    let scan (source : List UInt8) := (({} : Scanner).parse {} source).value.last
    a.getLast? = some Byte.lf ∧ (scan a).metrics.unterminated? = none ∧
    (a ++ b).length + 1 < UInt32.size ∧
    (Machine.scan (a ++ b)).tokens =
      [⟨.literal, "1", 1⟩, ⟨.operator, "(", 1⟩, ⟨.operator, "=", 1 + 1⟩] ∧
    (scan (a ++ b)).metrics.opened = { lineComments := 1, strings := 1 } ∧
    (scan (a ++ b)).metrics.unterminated? = some ⟨.inString, 2 + 1⟩ ∧
    (scan (a ++ b)).tokens = (scan a).tokens ++ [⟨.operator, "=", 1 + 1⟩] := by
  intro a b scan
  have hlf : a.getLast? = some Byte.lf := rfl
  have hclosed : (scan a).metrics.unterminated? = none := by cbv
  have hlen : (a ++ b).length + 1 < UInt32.size := by decide
  have hk : (scan a).metrics.lineCount = 1 := by cbv
  have ha : (Machine.scan a).tokens = [⟨.literal, "1", 1⟩, ⟨.operator, "(", 1⟩] := by cbv
  have hb : (Machine.scan b).tokens = [⟨.operator, "=", 1⟩] := by cbv
  have hfirst : (scan a).tokens = [⟨.literal, "1", 1⟩, ⟨.operator, "(", 1⟩] := by
    rw [tokens_last_parse, ha]
    rfl
  have hsecond : (scan b).tokens = [⟨.operator, "=", 1⟩] := by
    rw [tokens_last_parse, hb]
    rfl
  have hopened₁ : (scan a).metrics.opened = { lineComments := 1 } := by cbv
  have hopened₂ : (scan b).metrics.opened = { strings := 1 } := by cbv
  have hopen₂ : (scan b).metrics.unterminated? = some ⟨.inString, 2⟩ := by cbv
  obtain ⟨hraw, -, hopened, hopen, -, -, hcut⟩ := parse_append {} {} {} {} hlf hclosed hlen
  refine ⟨hlf, hclosed, hlen, ?_, ?_, ?_, ?_⟩
  · rw [hraw, ha, hb, hk]
    rfl
  · rw [hopened, hopened₁, hopened₂]
    rfl
  · rw [hopen, hopen₂, hk]
    rfl
  · rw [hcut, hsecond, hk]
    · rfl
    · rw [hfirst, hsecond]
      simp [isHardPunctuation]

end ScalaLex
