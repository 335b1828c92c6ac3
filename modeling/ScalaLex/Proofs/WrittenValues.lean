import ScalaLex.Proofs.DecimalDigits
import ScalaLex.Proofs.WrittenStrings
import ScalaLex.Toml.Parser

/-!
# Reading values that were written

A field of a section is written as a truth value, a count, a text or a list of texts, and is read
back as such (`value?_write`).

The digits of a count could as well start a date, a time or a float. They do not, as a line end
comes after them (`datetime?_append`, `float?_append`), and they are not cut short, as only zero
starts with a zero (`Natural.isCount_toDigits`). A list of several texts is read line by line
(`items?_itemLines`).
-/

namespace ScalaLex.Toml

open Natural

variable {c d : Char} {ds cs rest tail : List Char} {n k : Nat}

/-! ## Decimal digits -/

theorem digitRun_append (hds : ∀ d ∈ ds, d.isDigit = true) (rest : List Char) :
    digitRun isDecimal (ds ++ '\n' :: rest) = (ds, '\n' :: rest) := by
  induction ds with
  | nil =>
    rw [List.nil_append, digitRun, if_neg (by decide)]
    simp
  | cons d ds ih =>
    obtain ⟨hd, hds⟩ := List.forall_mem_cons.1 hds
    have hunderscore : d ≠ '_' := ne_of_isDigit hd rfl
    have hdecimal : isDecimal d = true := hd
    rw [List.cons_append, digitRun, if_pos hdecimal, ih hds]
    simp [hunderscore]

theorem value?_of_isDigit (h : d.isDigit = true) : Hex.value? d = some (d.toNat - '0'.toNat) := by
  rw [Hex.value?, if_pos]
  simpa [Char.isDigit, Char.le_def] using h

/-- A number has the value of its digits. -/
theorem ofDigits_toDigits (n : Nat) : ofDigits 10 (Nat.toDigits 10 n) = n := by
  have hfold : ∀ ds : List Char, (∀ d ∈ ds, d.isDigit = true) → ∀ m,
      ds.foldl (fun n d => n * 10 + (Hex.value? d).getD 0) m = Nat.ofDigitChars 10 ds m := by
    intro ds hds
    induction ds with
    | nil => exact fun m => rfl
    | cons d ds ih =>
      obtain ⟨hd, hds⟩ := List.forall_mem_cons.1 hds
      intro m
      rw [List.foldl_cons, ih hds, Nat.ofDigitChars_cons, value?_of_isDigit hd, Option.getD_some,
        Nat.mul_comm 10]
  rw [ofDigits, hfold _ (isCount_toDigits n).isDigit,
    Nat.ofDigitChars_toDigits (by decide) (by decide)]

theorem whole?_append (hds : IsCount ds) (rest : List Char) :
    whole? (ds ++ '\n' :: rest) = some (ds, '\n' :: rest) := by
  obtain ⟨d, ds', rfl⟩ := List.exists_cons_of_ne_nil hds.ne_nil
  by_cases hzero : d = '0'
  · subst hzero
    have hnil : ds' = [] := (List.cons.inj (hds.zero rfl)).2
    subst hnil
    rfl
  · have hd := hds.isDigit d List.mem_cons_self
    rw [List.cons_append, whole?]
    · have hdecimal : isDecimal d = true := hd
      rw [digits?, if_pos hdecimal, ← List.cons_append, digitRun_append hds.isDigit]
    · exact fun _ heq => hzero (List.cons.inj heq).1

theorem sign_append (hds : IsCount ds) (rest : List Char) :
    sign (ds ++ '\n' :: rest) = (false, ds ++ '\n' :: rest) := by
  obtain ⟨d, ds', rfl⟩ := List.exists_cons_of_ne_nil hds.ne_nil
  have hd := hds.isDigit d List.mem_cons_self
  rw [List.cons_append, sign]
  · exact fun _ heq => ne_of_isDigit hd rfl (List.cons.inj heq).1
  · exact fun _ heq => ne_of_isDigit hd rfl (List.cons.inj heq).1

/-! ## What a count is not -/

/-- A fixed number of digits leaves digits and what follows them. -/
theorem fixed?_append {m : Nat} (hds : ∀ d ∈ ds, d.isDigit = true) (k n : Nat)
    (h : fixed? k n (ds ++ '\n' :: rest) = some (m, tail)) :
    ∃ ds', (∀ d ∈ ds', d.isDigit = true) ∧ tail = ds' ++ '\n' :: rest := by
  induction k generalizing ds n with
  | zero =>
    rw [fixed?] at h
    cases h
    exact ⟨ds, hds, rfl⟩
  | succ k ih =>
    cases ds with
    | nil =>
      rw [List.nil_append, fixed?, if_neg (by decide)] at h
      cases h
    | cons d ds =>
      obtain ⟨hd, hds⟩ := List.forall_mem_cons.1 hds
      rw [List.cons_append, fixed?, if_pos hd] at h
      exact ih hds _ h

theorem mark?_append (hds : ∀ d ∈ ds, d.isDigit = true) (hc : c.isDigit = false) (hline : c ≠ '\n')
    (rest : List Char) : mark? c (ds ++ '\n' :: rest) = none := by
  cases ds with
  | nil => simp [mark?, hline]
  | cons d ds =>
    have hd := ne_of_isDigit (hds d List.mem_cons_self) hc
    simp [mark?, hd.symm]

theorem datetime?_append (hds : ∀ d ∈ ds, d.isDigit = true) (rest : List Char) :
    datetime? (ds ++ '\n' :: rest) = none := by
  have hdate : date? (ds ++ '\n' :: rest) = none := by
    rw [date?]
    cases hfixed : fixed? 4 0 (ds ++ '\n' :: rest) with
    | none => rfl
    | some x =>
      obtain ⟨ds', hds', htail⟩ := fixed?_append hds 4 0 hfixed
      simp [htail, mark?_append hds' (c := '-') rfl (by decide)]
  have htime : time? (ds ++ '\n' :: rest) = none := by
    rw [time?]
    cases hfixed : fixed? 2 0 (ds ++ '\n' :: rest) with
    | none => rfl
    | some x =>
      obtain ⟨ds', hds', htail⟩ := fixed?_append hds 2 0 hfixed
      simp [htail, mark?_append hds' (c := ':') rfl (by decide)]
  rw [datetime?, hdate, htime]
  rfl

theorem float?_append (hds : IsCount ds) (rest : List Char) :
    float? (ds ++ '\n' :: rest) = none := by
  have hwritten : writtenFloat? (ds ++ '\n' :: rest) = none := by
    rw [writtenFloat?, sign_append hds]
    simp [whole?_append hds, fraction?, exponent?]
  have hnamed : namedFloat? (ds ++ '\n' :: rest) = none := by
    rw [namedFloat?, sign_append hds]
    obtain ⟨d, ds', rfl⟩ := List.exists_cons_of_ne_nil hds.ne_nil
    have hd := hds.isDigit d List.mem_cons_self
    split
    · rename_i heq
      exact absurd (List.cons.inj heq).1 (ne_of_isDigit hd rfl)
    · rename_i heq
      exact absurd (List.cons.inj heq).1 (ne_of_isDigit hd rfl)
    · rfl
  rw [float?, hwritten, hnamed]
  rfl

/-- A count has no mark for another base. -/
theorem append_ne_of_isCount (hds : IsCount ds) (hline : c ≠ '\n') (rest rest' : List Char) :
    ds ++ '\n' :: rest ≠ '0' :: c :: rest' := by
  obtain ⟨d, ds', rfl⟩ := List.exists_cons_of_ne_nil hds.ne_nil
  intro heq
  obtain ⟨hzero, heq⟩ := List.cons.inj heq
  rw [(List.cons.inj (hds.zero (by rw [hzero]; rfl))).2] at heq
  exact hline (List.cons.inj heq).1.symm

/-- A count is read from its digits. -/
theorem number?_toDigits (hfits : fits n = true) (rest : List Char) :
    number? (Nat.toDigits 10 n ++ '\n' :: rest) = some (.integer n, '\n' :: rest) := by
  have hds := isCount_toDigits n
  rw [number?, datetime?_append hds.isDigit, float?_append hds, Option.none_or, Option.none_or,
    integer?]
  · rw [sign_append hds]
    simp [whole?_append hds, ofDigits_toDigits, hfits]
  · exact append_ne_of_isCount hds (by decide) rest
  · exact append_ne_of_isCount hds (by decide) rest
  · exact append_ne_of_isCount hds (by decide) rest

/-! ## Values of fields -/

/-- What a field is read as. -/
def Field.toValue : Field → Value
  | boolean b => .boolean b
  | count n => .integer n
  | text s => .string s
  | texts ss => .array (ss.map .string)

theorem exists_writeString (text : String) :
    (∃ tail, writeString text = '"' :: tail) ∨ ∃ tail, writeString text = '\x27' :: tail := by
  cases hstyle : styleOf text.toList with
  | basic | multiBasic =>
    refine Or.inl ⟨(writeString text).tail, ?_⟩
    simp only [writeString, hstyle]
    rfl
  | literal | multiLiteral =>
    refine Or.inr ⟨(writeString text).tail, ?_⟩
    simp only [writeString, hstyle]
    rfl

theorem value?_writeString (text : String) (hrest : EndsString rest) (steps depth : Nat) :
    value? (steps + 1) depth (writeString text ++ rest) = some (.string text, rest) := by
  have hstring := string?_writeString text hrest
  obtain ⟨tail, htail⟩ | ⟨tail, htail⟩ := exists_writeString text
  · rw [htail, List.cons_append] at hstring ⊢
    rw [value?, hstring]
    simp
  · rw [htail, List.cons_append] at hstring ⊢
    rw [value?, hstring]
    simp

/-- No trivia stand in front of a string. -/
theorem skipTrivia?_writeString (text : String) (rest : List Char) :
    skipTrivia? false (writeString text ++ rest) = some (writeString text ++ rest) := by
  obtain ⟨tail, htail⟩ | ⟨tail, htail⟩ := exists_writeString text
  · simp [htail, skipTrivia?]
  · simp [htail, skipTrivia?]

/-- The lines of a list of texts, and what closes the list. -/
def itemLines (ss : List String) (rest : List Char) : List Char :=
  ss.flatMap (fun s => "    ".toList ++ writeString s ++ [',', '\n']) ++ ']' :: rest

theorem itemLines_cons (s : String) (ss : List String) (rest : List Char) :
    itemLines (s :: ss) rest =
      ' ' :: ' ' :: ' ' :: ' ' :: (writeString s ++ ',' :: '\n' :: itemLines ss rest) := by
  simp [itemLines]

theorem skipTrivia?_comma (rest : List Char) :
    skipTrivia? false (',' :: rest) = some (',' :: rest) := by
  simp [skipTrivia?]

theorem skipTrivia?_bracket (rest : List Char) :
    skipTrivia? false (']' :: rest) = some (']' :: rest) := by
  simp [skipTrivia?]

theorem skipTrivia?_itemLines (s : String) (ss : List String) (rest : List Char) :
    skipTrivia? false ('\n' :: itemLines (s :: ss) rest) =
      some (writeString s ++ ',' :: '\n' :: itemLines ss rest) := by
  rw [itemLines_cons]
  simp [skipTrivia?, skipTrivia?_writeString]

theorem endsString_cons (h : c ≠ '"' ∧ c ≠ '\x27') (rest : List Char) : EndsString (c :: rest) := by
  rintro d ⟨⟩
  exact h

/-- The lines of a list are read item by item. -/
theorem items?_itemLines (s : String) (ss : List String) (rest : List Char) (steps depth : Nat)
    (hsteps : ss.length ≤ steps) :
    items? (steps + 2) depth (writeString s ++ ',' :: '\n' :: itemLines ss rest) =
      some ((s :: ss).map .string, rest) := by
  induction ss generalizing s steps with
  | nil =>
    rw [items?, value?_writeString s (endsString_cons (by decide) _)]
    simp [skipTrivia?, itemLines]
  | cons s' ss ih =>
    obtain ⟨steps, rfl⟩ := Nat.exists_eq_add_of_le' (Nat.le_trans (Nat.le_add_left 1 _) hsteps)
    have hinner := ih s' steps (Nat.le_of_succ_le_succ hsteps)
    have htrivia := skipTrivia?_itemLines s' ss rest
    rw [items?, value?_writeString s (endsString_cons (by decide) _)]
    obtain ⟨tail, htail⟩ | ⟨tail, htail⟩ := exists_writeString s'
    all_goals
      rw [htail, List.cons_append] at hinner htrivia
      simp [skipTrivia?_comma, htrivia, hinner]

/-- A list is its items, once the trivia in front of them are passed over. -/
theorem value?_bracket {items : List Char} {values : List Value} {text : String} {steps depth : Nat}
    (hdepth : depth + 1 < depthLimit)
    (htrivia : skipTrivia? false items = some (writeString text ++ cs))
    (hitems : items? steps (depth + 1) (writeString text ++ cs) = some (values, rest)) :
    value? (steps + 1) depth ('[' :: items) = some (.array values, rest) := by
  have hopen : ¬depthLimit ≤ depth + 1 := Nat.not_le_of_lt hdepth
  obtain ⟨tail, htail⟩ | ⟨tail, htail⟩ := exists_writeString text
  all_goals
    rw [htail, List.cons_append] at htrivia hitems
    simp [value?, hopen, htrivia, hitems]

/-- A list of texts is read back. -/
theorem value?_writeItems (ss : List String) (rest : List Char) (steps depth : Nat)
    (hsteps : ss.length ≤ steps + 1) (hdepth : depth + 1 < depthLimit) :
    value? (steps + 3) depth (writeItems (ss.map writeString) ++ rest) =
      some (.array (ss.map .string), rest) := by
  match ss with
  | [] =>
    have hopen : ¬depthLimit ≤ depth + 1 := Nat.not_le_of_lt hdepth
    simp [writeItems, value?, hopen, skipTrivia?_bracket]
  | [s] =>
    have hwritten : writeItems ([s].map writeString) ++ rest =
        '[' :: (writeString s ++ ']' :: rest) := by simp [writeItems]
    rw [hwritten]
    refine value?_bracket hdepth (skipTrivia?_writeString s _) ?_
    rw [items?, value?_writeString s (endsString_cons (by decide) _)]
    simp [skipTrivia?_bracket]
  | s :: s' :: ss =>
    have hwritten : writeItems ((s :: s' :: ss).map writeString) ++ rest =
        '[' :: '\n' :: itemLines (s :: s' :: ss) rest := by
      simp [writeItems, itemLines, List.flatMap_map]
    rw [hwritten]
    exact value?_bracket hdepth (skipTrivia?_itemLines s (s' :: ss) rest)
      (items?_itemLines s (s' :: ss) rest steps (depth + 1) (Nat.le_of_succ_le_succ hsteps))

/-- A list has more characters than items, the brackets at least. -/
theorem length_writeItems (items : List (List Char)) :
    2 ≤ (writeItems items).length ∧ items.length < (writeItems items).length := by
  have hlines : ∀ items : List (List Char), items.length ≤
      (items.flatMap fun item => "    ".toList ++ item ++ [',', '\n']).length := by
    intro items
    induction items with
    | nil => exact Nat.le_refl _
    | cons item items ih =>
      rw [List.flatMap_cons, List.length_append, List.length_cons]
      simp only [List.length_append, List.length_cons, List.length_nil] at ih ⊢
      omega
  match items with
  | [] => decide
  | [item] => simp [writeItems]
  | item :: item' :: items =>
    have hmany := hlines (item :: item' :: items)
    have hwritten : (writeItems (item :: item' :: items)).length = ((item :: item' :: items).flatMap
        fun item => "    ".toList ++ item ++ [',', '\n']).length + 3 := by
      rw [writeItems]
      · rw [List.length_append, List.length_cons, List.length_cons]
        rfl
      · exact fun heq => nomatch heq
      · exact fun _ heq => nomatch heq
    omega

/-- What is written for a field is read back at the end of a line. -/
theorem value?_write (f : Field) (hf : f.isWritable = true) (rest : List Char) (steps : Nat)
    (hsteps : f.write.length ≤ steps) :
    value? (steps + 1) 0 (f.write ++ '\n' :: rest) = some (f.toValue, '\n' :: rest) := by
  cases f with
  | boolean b => cases b <;> simp [Field.write, Field.toValue, value?]
  | count n =>
    have hread := number?_toDigits hf rest
    have hds := isCount_toDigits n
    obtain ⟨d, ds, hcons⟩ := List.exists_cons_of_ne_nil hds.ne_nil
    have hd := hds.isDigit d (by rw [hcons]; exact List.mem_cons_self)
    have hne : ∀ {c : Char}, c.isDigit = false → ∀ rest', d :: (ds ++ '\n' :: rest) ≠ c :: rest' :=
      fun hc _ heq => ne_of_isDigit hd hc (List.cons.inj heq).1
    rw [Field.write, Field.toValue, ← hread, hcons, List.cons_append, value?]
    · exact hne rfl
    · exact hne rfl
    · exact fun rest' => hne rfl _
    · exact fun rest' => hne rfl _
    · exact hne rfl
    · exact hne rfl
  | text s => exact value?_writeString s (endsString_cons (by decide) rest) steps 0
  | texts ss =>
    obtain ⟨hbrackets, hlength⟩ := length_writeItems (ss.map writeString)
    rw [List.length_map] at hlength
    change (writeItems (ss.map writeString)).length ≤ steps at hsteps
    obtain ⟨steps, rfl⟩ := Nat.exists_eq_add_of_le' (Nat.le_trans hbrackets hsteps)
    exact value?_writeItems ss ('\n' :: rest) steps 0 (by omega) (by decide)

end ScalaLex.Toml
