import ScalaLex.Toml.Printer
import ScalaLex.Toml.Text

/-!
# Reading strings that were written

A string is written in one of several styles, and in each it is read as it was.

Between double quotes each character is spelled by itself or by an escape (`Spells`), which the
readers turn back (`basic?_of_spells`, `multiBasic?_of_spells`). Within triple quotes up to two
quotes in a row stand for themselves (`read_replicate`), and up to two of those that end the string
still belong to the text (`closing_replicate`). So what is carried along is the run of quotes just
before (`multiBasic?_escape`, `multiLiteral?_append`).

Between single quotes nothing is escaped, and the style is chosen only for texts that need no escape
(`of_styleOf_literal`, `of_styleOf_multiLiteral`).
-/

namespace ScalaLex.Toml

variable {c d quote : Char} {cs rest w : List Char} {run : Nat} {isMulti : Bool}

/-! ## Spelling a character -/

theorem isPlain_of_not_isControl (h : isControl c = false) (hline : c ≠ '\n') :
    isPlain c = true := by
  by_cases htab : c = '\t'
  · rw [htab]
    rfl
  · have hgraphic : ¬(c < ' ') ∧ c ≠ '\x7f' := by simpa [isControl, htab, hline] using h
    simp [isPlain, htab, hgraphic.2, Char.not_lt.1 hgraphic.1]

/-- A control character is read back from its number. -/
theorem scalar_of_isControl (h : isControl c = true) :
    (Hex.value4? '0' '0' (Hex.upperDigit (c.toNat / 16)) (Hex.upperDigit (c.toNat % 16))).bind
      Hex.scalar? = some c := by
  have hall : ∀ n < 128, (Hex.value4? '0' '0' (Hex.upperDigit (n / 16))
      (Hex.upperDigit (n % 16))).bind Hex.scalar? = some (Char.ofNat n) := by decide
  have hlow : c.toNat < 128 := by
    simp only [isControl, Bool.and_eq_true, Bool.or_eq_true, decide_eq_true_eq, beq_iff_eq] at h
    rcases h.1.1 with hlt | rfl
    · exact Nat.lt_trans (show c.toNat < 32 from hlt) (by decide)
    · decide
  rw [hall c.toNat hlow, Char.ofNat_toNat]

/-- What spells a character between double quotes. -/
inductive Spells (c : Char) : List Char → Prop
  | short {d : Char} (escape : shortEscape? d = some c) : Spells c ['\\', d]
  | number {a b : Char} (scalar : (Hex.value4? '0' '0' a b).bind Hex.scalar? = some c) :
      Spells c ['\\', 'u', '0', '0', a, b]
  | plain (plain : isPlain c = true) (no_escape : c ≠ '\\') (no_quote : c ≠ '"') : Spells c [c]

theorem spells_escapeChar (hquote : c ≠ '"') (hline : isMulti = true → c ≠ '\n') :
    Spells c (escapeChar isMulti c) := by
  unfold escapeChar
  split
  · exact .short rfl
  · exact .short rfl
  · cases isMulti with
    | true => exact absurd rfl (hline rfl)
    | false => exact .short rfl
  · exact .short rfl
  · exact .short rfl
  · exact .short rfl
  · rename_i hnewline _ _ hescape
    split
    · rename_i hcontrol
      exact .number (scalar_of_isControl hcontrol)
    · rename_i hcontrol
      exact .plain (isPlain_of_not_isControl (Bool.eq_false_iff.2 hcontrol) hnewline) hescape hquote

/-- No spelling starts with a quote or with a line end. -/
theorem Spells.exists_cons (h : Spells c w) :
    ∃ d tail, w = d :: tail ∧ d ≠ '"' ∧ d ≠ '\n' ∧ d ≠ '\r' := by
  cases h with
  | short escape => exact ⟨_, _, rfl, by decide, by decide, by decide⟩
  | number scalar => exact ⟨_, _, rfl, by decide, by decide, by decide⟩
  | plain plain no_escape no_quote =>
    refine ⟨_, _, rfl, no_quote, ?_, ?_⟩
    · rintro rfl
      cases plain
    · rintro rfl
      cases plain

theorem escape_cons_of_ne (h : c ≠ '"') (isMulti : Bool) (run : Nat) (cs : List Char) :
    escape isMulti run (c :: cs) = escapeChar isMulti c ++ escape isMulti 0 cs := by
  rw [escape, if_neg (by simpa using h)]

/-- On a line every quote is escaped. -/
theorem escape_quote (run : Nat) (cs : List Char) :
    escape false run ('"' :: cs) = '\\' :: '"' :: escape false 0 cs := by
  rw [escape, if_pos (by decide), if_neg (by simp)]

/-! ## Between double quotes -/

theorem basic?_of_spells (h : Spells c w) (rest : List Char) :
    basic? (w ++ rest) = (basic? rest).map (cons c) := by
  cases h with
  | @short d escape =>
    have hu : d ≠ 'u' := by
      rintro rfl
      cases escape
    have hU : d ≠ 'U' := by
      rintro rfl
      cases escape
    rw [List.cons_append, List.cons_append, List.nil_append, basic?, escape]
    · exact Option.map_eq_bind.symm
    all_goals simp [hu, hU]
  | number scalar =>
    simp only [List.cons_append, List.nil_append, basic?, scalar]
    exact Option.map_eq_bind.symm
  | plain plain no_escape no_quote => simp [basic?, plain, no_escape]

/-- What stands between double quotes on a line is read as it was. -/
theorem basic?_escape (run : Nat) (cs rest : List Char) :
    basic? (escape false run cs ++ '"' :: rest) = some (cs, rest) := by
  induction cs generalizing run with
  | nil => rfl
  | cons c cs ih =>
    by_cases hquote : c = '"'
    · subst hquote
      have hspells : Spells '"' ['\\', '"'] := .short rfl
      have hread := basic?_of_spells hspells (escape false 0 cs ++ '"' :: rest)
      rw [ih] at hread
      rw [escape_quote]
      exact hread
    · have hspells : Spells c (escapeChar false c) :=
        spells_escapeChar hquote fun h => absurd h Bool.false_ne_true
      rw [escape_cons_of_ne hquote, List.append_assoc, basic?_of_spells hspells, ih]
      rfl

/-! ## Runs of quotes -/

/-- Up to two quotes behind the closing ones belong to the text. -/
theorem closing_replicate (hrun : run ≤ 2) (hrest : ∀ c ∈ rest.head?, c ≠ quote) :
    closing quote (List.replicate run quote ++ rest) = (List.replicate run quote, rest) := by
  obtain rfl | rfl | rfl : run = 0 ∨ run = 1 ∨ run = 2 := by omega
  · cases rest with
    | nil => rfl
    | cons a rest =>
      have ha : a ≠ quote := hrest a rfl
      cases rest <;> simp [closing, ha]
  · cases rest with
    | nil => simp [closing]
    | cons a rest =>
      have ha : a ≠ quote := hrest a rfl
      simp [closing, ha]
  · simp [closing, List.replicate_succ]

theorem replicate_append_closing (run : Nat) (quote : Char) (rest : List Char) :
    List.replicate run quote ++ quote :: quote :: quote :: rest =
      quote :: quote :: quote :: (List.replicate run quote ++ rest) := by
  induction run with
  | zero => rfl
  | succ run ih => rw [List.replicate_succ, List.cons_append, ih, List.cons_append]

/-- Where a quote that does not end the string stands for itself, so do two of them. -/
theorem read_replicate {read? : List Char → Option (List Char × List Char)}
    (hread : ∀ rest, (∀ rest', rest ≠ quote :: quote :: rest') →
      read? (quote :: rest) = (read? rest).map (cons quote))
    (hrun : run ≤ 2) (hd : d ≠ quote) (rest : List Char) :
    read? (List.replicate run quote ++ d :: rest) =
      (read? (d :: rest)).map fun (text, rest) => (List.replicate run quote ++ text, rest) := by
  obtain rfl | rfl | rfl : run = 0 ∨ run = 1 ∨ run = 2 := by omega
  · simp
  · exact hread _ (by simp [hd])
  · change read? (quote :: quote :: d :: rest) = _
    rw [hread _ (by simp [hd]), hread _ (by simp [hd]), Option.map_map]
    rfl

/-! ## Between triple double quotes -/

theorem multiBasic?_of_spells (h : Spells c w) (rest : List Char) :
    multiBasic? (w ++ rest) = (multiBasic? rest).map (cons c) := by
  cases h with
  | @short d escape =>
    have hu : d ≠ 'u' := by
      rintro rfl
      cases escape
    have hU : d ≠ 'U' := by
      rintro rfl
      cases escape
    simp [multiBasic?, hu, hU, escape]
  | number scalar =>
    simp only [List.cons_append, List.nil_append, multiBasic?, scalar]
    exact Option.map_eq_bind.symm
  | plain plain no_escape no_quote =>
    have hline : c ≠ '\n' := by
      rintro rfl
      cases plain
    have hreturn : c ≠ '\r' := by
      rintro rfl
      cases plain
    rw [List.singleton_append, multiBasic?, if_pos (by simp [plain, no_escape])]
    · simp [no_quote]
    · exact hline
    · simp [hreturn]
    all_goals simp [no_escape]

/-- A quote that does not end the string stands for itself. -/
theorem multiBasic?_quote (rest : List Char) (h : ∀ rest', rest ≠ '"' :: '"' :: rest') :
    multiBasic? ('"' :: rest) = (multiBasic? rest).map (cons '"') := by
  rw [multiBasic?]
  · rfl
  · rintro rest' -
    exact h rest'
  all_goals simp

/-- What stands between triple double quotes is read as it was, with the quotes in front of it. -/
theorem multiBasic?_escape (hrun : run ≤ 2) (cs : List Char)
    (hrest : ∀ c ∈ rest.head?, c ≠ '"') :
    multiBasic? (List.replicate run '"' ++ (escape true run cs ++ '"' :: '"' :: '"' :: rest)) =
      some (List.replicate run '"' ++ cs, rest) := by
  induction cs generalizing run with
  | nil =>
    rw [escape, List.nil_append, replicate_append_closing, multiBasic?,
      closing_replicate hrun hrest, List.append_nil]
  | cons c cs ih =>
    have htail := @ih 0 (Nat.zero_le 2)
    rw [List.replicate_zero, List.nil_append, List.nil_append] at htail
    -- what spells a character that is no quote ends the run
    have hspelled : ∀ {w}, Spells c w → multiBasic? (List.replicate run '"' ++
        (w ++ escape true 0 cs ++ '"' :: '"' :: '"' :: rest)) =
          some (List.replicate run '"' ++ c :: cs, rest) := by
      intro w hspells
      have hread := multiBasic?_of_spells hspells (escape true 0 cs ++ '"' :: '"' :: '"' :: rest)
      obtain ⟨d, tail, rfl, hd, -⟩ := hspells.exists_cons
      rw [List.cons_append, htail] at hread
      rw [List.cons_append, List.cons_append, read_replicate multiBasic?_quote hrun hd,
        List.append_assoc, hread]
      rfl
    by_cases hquote : c = '"'
    · subst hquote
      rw [escape, if_pos (by decide), if_pos rfl]
      split
      · have hih := @ih (run + 1) (by omega)
        rwa [List.replicate_succ', List.append_assoc, List.append_assoc, List.singleton_append,
          List.singleton_append] at hih
      · exact hspelled (.short rfl)
    · rw [escape_cons_of_ne hquote]
      by_cases hline : c = '\n'
      · have hescape : escapeChar true c = ['\n'] := by rw [hline]; rfl
        rw [hescape, List.append_assoc, List.singleton_append,
          read_replicate multiBasic?_quote hrun (by decide), multiBasic?, htail, hline]
        rfl
      · exact hspelled (spells_escapeChar hquote fun _ => hline)

/-! ## Between single quotes -/

theorem literal?_append (h : ∀ c ∈ cs, isPlain c = true ∧ c ≠ '\x27') (rest : List Char) :
    literal? (cs ++ '\x27' :: rest) = some (cs, rest) := by
  induction cs with
  | nil => rfl
  | cons c cs ih =>
    obtain ⟨⟨hplain, hquote⟩, hcs⟩ := List.forall_mem_cons.1 h
    rw [List.cons_append, literal?]
    · rw [if_pos hplain, ih hcs]
      rfl
    · exact hquote

/-- A longest run is as long as what was counted. -/
theorem le_longestRun (c : Char) (run longest : Nat) (cs : List Char) :
    longest ≤ longestRun c run longest cs := by
  induction cs generalizing run longest with
  | nil => exact Nat.le_refl _
  | cons d cs ih =>
    rw [longestRun]
    split
    · exact Nat.le_trans (Nat.le_max_left _ _) (ih _ _)
    · exact ih _ _

theorem not_mem_of_longestRun {longest : Nat} (h : longestRun c run longest cs = 0) : c ∉ cs := by
  induction cs generalizing run longest with
  | nil => exact List.not_mem_nil
  | cons d cs ih =>
    rw [longestRun] at h
    split at h
    · have := le_longestRun c (run + 1) (max longest (run + 1)) cs
      omega
    · rename_i hd
      rw [List.mem_cons, not_or]
      exact ⟨fun hc => hd (by simp [hc]), ih h⟩

/-- A quote that does not end the string stands for itself. -/
theorem multiLiteral?_quote (rest : List Char) (h : ∀ rest', rest ≠ '\x27' :: '\x27' :: rest') :
    multiLiteral? ('\x27' :: rest) = (multiLiteral? rest).map (cons '\x27') := by
  rw [multiLiteral?]
  · rfl
  · rintro rest' -
    exact h rest'
  all_goals simp

/-- What stands between triple single quotes is read as it is, with the quotes in front of it, if
no run of quotes in it is too long. -/
theorem multiLiteral?_append {longest : Nat} (hrun : run ≤ 2)
    (hcs : ∀ c ∈ cs, isControl c = false) (hlongest : longestRun '\x27' run longest cs ≤ 2)
    (hrest : ∀ c ∈ rest.head?, c ≠ '\x27') :
    multiLiteral? (List.replicate run '\x27' ++ (cs ++ '\x27' :: '\x27' :: '\x27' :: rest)) =
      some (List.replicate run '\x27' ++ cs, rest) := by
  induction cs generalizing run longest with
  | nil =>
    rw [List.nil_append, replicate_append_closing, multiLiteral?, closing_replicate hrun hrest,
      List.append_nil]
  | cons c cs ih =>
    obtain ⟨hc, htail⟩ := List.forall_mem_cons.1 hcs
    rw [longestRun] at hlongest
    by_cases hquote : c = '\x27'
    · subst hquote
      rw [if_pos (by decide)] at hlongest
      have hle := le_longestRun '\x27' (run + 1) (max longest (run + 1)) cs
      have hih := @ih (run + 1) _ (by omega) htail hlongest
      rwa [List.replicate_succ', List.append_assoc, List.append_assoc, List.singleton_append,
        List.singleton_append] at hih
    · rw [if_neg (by simpa using hquote)] at hlongest
      have hih := @ih 0 _ (by omega) htail hlongest
      rw [List.replicate_zero, List.nil_append, List.nil_append] at hih
      have hread : multiLiteral? (c :: (cs ++ '\x27' :: '\x27' :: '\x27' :: rest)) =
          some (c :: cs, rest) := by
        by_cases hline : c = '\n'
        · rw [hline, multiLiteral?, hih]
          rfl
        · have hreturn : c ≠ '\r' := by
            rintro rfl
            cases hc
          rw [multiLiteral?, if_pos (isPlain_of_not_isControl hc hline), hih]
          · rfl
          all_goals simp [hquote, hline, hreturn]
      rw [List.cons_append, read_replicate multiLiteral?_quote hrun hquote, hread]
      rfl

/-! ## Strings in their styles -/

/-- A text that is written on a line between single quotes. -/
theorem of_styleOf_literal (h : styleOf cs = .literal) :
    cs.any isControl = false ∧ '\x27' ∉ cs ∧ '\n' ∉ cs := by
  simp only [styleOf] at h
  split at h
  · cases h
  split at h
  · rename_i hliteral
    simp only [Bool.and_eq_true, Bool.not_eq_true', beq_iff_eq, List.contains_eq_mem,
      decide_eq_false_iff_not] at hliteral
    exact ⟨hliteral.1.1, not_mem_of_longestRun hliteral.1.2, hliteral.2⟩
  · repeat' split at h
    all_goals cases h

/-- A text that is written between triple single quotes. -/
theorem of_styleOf_multiLiteral (h : styleOf cs = .multiLiteral) :
    cs.any isControl = false ∧ longestRun '\x27' 0 0 cs ≤ 2 := by
  simp only [styleOf] at h
  split at h
  · cases h
  split at h
  · cases h
  split at h
  · cases h
  split at h
  · rename_i hmulti
    simpa only [Bool.and_eq_true, Bool.not_eq_true', decide_eq_true_eq] using hmulti
  · split at h <;> cases h

theorem not_isControl_of_any (h : cs.any isControl = false) : ∀ c ∈ cs, isControl c = false := by
  simpa using h

/-- What can follow a string. -/
def EndsString (rest : List Char) : Prop := ∀ c ∈ rest.head?, c ≠ '"' ∧ c ≠ '\x27'

theorem string?_of_line (h : ∀ rest', cs ≠ '"' :: '"' :: '"' :: rest')
    (h' : ∀ rest', cs ≠ '\x27' :: '\x27' :: '\x27' :: rest') : string? cs = line? cs := by
  rw [string?]
  · exact h
  · exact h'

/-- A string on a line between double quotes does not start like one of several lines. -/
theorem escape_append_ne (hrest : EndsString rest) (cs rest' : List Char) :
    escape false 0 cs ++ '"' :: rest ≠ '"' :: '"' :: rest' := by
  cases cs with
  | nil =>
    intro heq
    have htail : rest = '"' :: rest' := (List.cons.inj heq).2
    exact (hrest '"' (by rw [htail]; rfl)).1 rfl
  | cons c cs =>
    intro heq
    by_cases hquote : c = '"'
    · subst hquote
      rw [escape_quote] at heq
      cases heq
    · have hspells : Spells c (escapeChar false c) :=
        spells_escapeChar hquote fun h => absurd h Bool.false_ne_true
      obtain ⟨d, tail, hw, hd, -⟩ := hspells.exists_cons
      rw [escape_cons_of_ne hquote, hw] at heq
      exact hd (List.cons.inj heq).1

/-- A line feed that was put in front of a text is dropped, and no other one is. -/
theorem dropNewline_append (breaks : Bool)
    (h : breaks = false → ∀ c ∈ cs.head?, c ≠ '\n' ∧ c ≠ '\r') :
    dropNewline ((if breaks then ['\n'] else []) ++ cs) = cs := by
  cases breaks with
  | true => rfl
  | false =>
    cases cs with
    | nil => rfl
    | cons c cs =>
      obtain ⟨hline, hreturn⟩ := h rfl c rfl
      have hnone : newline? (c :: cs) = none := by
        rw [newline?]
        · exact fun _ heq => hline (List.cons.inj heq).1
        · exact fun _ heq => hreturn (List.cons.inj heq).1
      change (newline? (c :: cs)).getD (c :: cs) = c :: cs
      rw [hnone, Option.getD_none]

theorem head_escape (hline : cs.contains '\n' = false) (rest : List Char) :
    ∀ c ∈ (escape true 0 cs ++ '"' :: rest).head?, c ≠ '\n' ∧ c ≠ '\r' := by
  cases cs with
  | nil =>
    rintro c ⟨⟩
    decide
  | cons c cs =>
    by_cases hquote : c = '"'
    · rw [escape, if_pos (by simpa using hquote), if_pos (by decide)]
      rintro d ⟨⟩
      decide
    · have hfirst : c ≠ '\n' := by
        rintro rfl
        simp at hline
      have hspells : Spells c (escapeChar true c) := spells_escapeChar hquote fun _ => hfirst
      obtain ⟨d, tail, hw, -, hd⟩ := hspells.exists_cons
      rw [escape_cons_of_ne hquote, hw]
      rintro d ⟨⟩
      exact hd

/-- A written string is read back. -/
theorem string?_writeString (text : String) (hrest : EndsString rest) :
    string? (writeString text ++ rest) = some (text.toList, rest) := by
  have hdouble : ∀ c ∈ rest.head?, c ≠ '"' := fun c hc => (hrest c hc).1
  have hsingle : ∀ c ∈ rest.head?, c ≠ '\x27' := fun c hc => (hrest c hc).2
  generalize hcs : text.toList = cs
  cases hstyle : styleOf cs with
  | basic =>
    have hwritten : writeString text ++ rest = '"' :: (escape false 0 cs ++ '"' :: rest) := by
      simp [writeString, hcs, hstyle, Style.quotes, Style.isMulti, Style.isBasic]
    rw [hwritten, string?_of_line, line?, basic?_escape]
    · exact fun rest' heq => escape_append_ne hrest cs rest' (List.cons.inj heq).2
    · exact fun rest' heq => absurd (List.cons.inj heq).1 (by decide)
  | literal =>
    obtain ⟨hcontrol, hquote, hline⟩ := of_styleOf_literal hstyle
    have hwritten : writeString text ++ rest = '\x27' :: (cs ++ '\x27' :: rest) := by
      simp [writeString, hcs, hstyle, Style.quotes, Style.isMulti, Style.isBasic]
    rw [hwritten, string?_of_line, line?, literal?_append]
    · intro c hc
      refine ⟨isPlain_of_not_isControl (not_isControl_of_any hcontrol c hc) ?_, ?_⟩
      · rintro rfl
        exact hline hc
      · rintro rfl
        exact hquote hc
    · exact fun rest' heq => absurd (List.cons.inj heq).1 (by decide)
    · intro rest' heq
      have htail := (List.cons.inj heq).2
      cases cs with
      | nil => exact hsingle '\x27' (by rw [(List.cons.inj htail).2]; rfl) rfl
      | cons c cs => exact hquote (by rw [(List.cons.inj htail).1]; exact List.mem_cons_self)
  | multiBasic =>
    have hwritten : writeString text ++ rest = '"' :: '"' :: '"' ::
        ((if cs.contains '\n' then ['\n'] else []) ++
          (escape true 0 cs ++ '"' :: '"' :: '"' :: rest)) := by
      simp [writeString, hcs, hstyle, Style.quotes, Style.isMulti, Style.isBasic,
        List.replicate_succ]
    rw [hwritten, string?, dropNewline_append _ fun hline => head_escape hline _]
    exact multiBasic?_escape (Nat.zero_le 2) cs hdouble
  | multiLiteral =>
    obtain ⟨hcontrol, hlongest⟩ := of_styleOf_multiLiteral hstyle
    have hwritten : writeString text ++ rest = '\x27' :: '\x27' :: '\x27' ::
        ((if cs.contains '\n' then ['\n'] else []) ++
          (cs ++ '\x27' :: '\x27' :: '\x27' :: rest)) := by
      simp [writeString, hcs, hstyle, Style.quotes, Style.isMulti, Style.isBasic,
        List.replicate_succ]
    rw [hwritten, string?, dropNewline_append]
    · exact multiLiteral?_append (Nat.zero_le 2) (not_isControl_of_any hcontrol) hlongest hsingle
    · intro hline c hc
      cases cs with
      | nil =>
        cases hc
        decide
      | cons d cs =>
        cases hc
        refine ⟨?_, ?_⟩
        · rintro rfl
          simp at hline
        · rintro rfl
          simp [isControl] at hcontrol

end ScalaLex.Toml
