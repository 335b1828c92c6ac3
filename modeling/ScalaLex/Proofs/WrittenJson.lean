import ScalaLex.Proofs.JsonGrammar
import ScalaLex.Proofs.JsonLayouts

/-!
# JSON that was written

A spelling says a text, character by character (`Says`), and that is what is read from it
(`unescape?_eq_some_iff`). An escaped text is a spelling of the grammar and says the text
(`isSpelling_escape`, `says_escape`), and the digits of a count are a number of the grammar with the
value of the count (`isNumber_toDigits`, `nat?_ofNat`).

So a tree that is built from texts and counts is spelled as the grammar has it (`IsSpelled`), and
what is written of it in either layout is read back as the same tree (`IsSpelled.parse?_write`).
-/

namespace ScalaLex.Json

variable {c : Char} {s t w back : List Char} {j : Json} {items : List Json}
  {members : List (List Char × Json)}

/-! ## What a spelling says -/

/-- What a spelling says, character by character. -/
inductive Says : List Char → List Char → Prop
  | nil : Says [] []
  | plain {c : Char} {s t : List Char} (no_escape : c ≠ '\\') (rest : Says s t) :
      Says (c :: s) (c :: t)
  | short {letter c : Char} {s t : List Char} (escape : shortEscape? letter = some c)
      (rest : Says s t) : Says ('\\' :: letter :: s) (c :: t)
  | unicode {a b c d : Char} {n : Nat} {s t : List Char} (digits : Hex.value4? a b c d = some n)
      (no_high : isHighSurrogate n = false) (no_low : isLowSurrogate n = false)
      (rest : Says s t) : Says ('\\' :: 'u' :: a :: b :: c :: d :: s) (Char.ofNat n :: t)
  | pair {a b c d a' b' c' d' : Char} {high low : Nat} {s t : List Char}
      (digits : Hex.value4? a b c d = some high) (is_high : isHighSurrogate high = true)
      (digits' : Hex.value4? a' b' c' d' = some low) (is_low : isLowSurrogate low = true)
      (rest : Says s t) :
      Says ('\\' :: 'u' :: a :: b :: c :: d :: '\\' :: 'u' :: a' :: b' :: c' :: d' :: s)
        (Char.ofNat (0x10000 + (high - 0xD800) * 0x400 + (low - 0xDC00)) :: t)

/-- What a spelling says is read from it. -/
theorem Says.unescape? (h : Says s t) : unescape? s = some t := by
  induction h with
  | nil => rfl
  | plain no_escape _ ih =>
    rw [Json.unescape?]
    · simp [ih]
    all_goals simp [no_escape]
  | @short letter c s t escape _ ih =>
    have hu : letter ≠ 'u' := by
      rintro rfl
      cases escape
    rw [Json.unescape?]
    · simp [ih, escape]
    all_goals simp [hu]
  | unicode digits no_high no_low _ ih => simp [Json.unescape?, digits, no_high, no_low, ih]
  | pair digits is_high digits' is_low _ ih =>
    simp [Json.unescape?, digits, is_high, digits', is_low, ih]

/-- What is read from a spelling is what it says. -/
theorem says_of_unescape? (h : Json.unescape? s = some t) : Says s t := by
  fun_induction Json.unescape? s generalizing t with
  | case1 => cases h; exact .nil
  | case2 a b c d rest ih_pair ih =>
    -- Half of a pair is followed by the other half, or nothing is read.
    obtain ⟨high, hdigits, h⟩ := Option.bind_eq_some_iff.1 h
    split at h
    · rename_i his_high
      split at h
      · obtain ⟨low, hdigits', h⟩ := Option.bind_eq_some_iff.1 h
        split at h
        · rename_i his_low
          obtain ⟨t', ht, h⟩ := Option.bind_eq_some_iff.1 h
          cases h
          exact .pair hdigits his_high hdigits' his_low (ih_pair ht)
        · cases h
      · cases h
    · rename_i hno_high
      rw [Option.ite_none_left_eq_some, Bool.not_eq_true] at h
      obtain ⟨hno_low, h⟩ := h
      obtain ⟨t', ht, h⟩ := Option.bind_eq_some_iff.1 h
      cases h
      exact .unicode hdigits (Bool.eq_false_iff.2 hno_high) hno_low (ih ht)
  | case3 letter rest _ ih =>
    obtain ⟨c, hescape, h⟩ := Option.bind_eq_some_iff.1 h
    obtain ⟨t', ht, h⟩ := Option.bind_eq_some_iff.1 h
    cases h
    exact .short hescape (ih ht)
  | case4 => cases h
  | case5 c rest _ hescape hlast ih =>
    have hc : c ≠ '\\' := by
      rintro rfl
      cases rest with
      | nil => exact hlast rfl rfl
      | cons d rest => exact hescape d rest rfl rfl
    obtain ⟨t', ht, h⟩ := Option.bind_eq_some_iff.1 h
    cases h
    exact .plain hc (ih ht)

/-- A spelling is read as what it says. -/
theorem unescape?_eq_some_iff : Json.unescape? s = some t ↔ Says s t :=
  ⟨says_of_unescape?, Says.unescape?⟩

theorem text?_string_eq_some_iff {text : String} :
    (string s).text? = some text ↔ Says s text.toList := by
  rw [text?, Option.map_eq_some_iff]
  simp only [unescape?_eq_some_iff]
  constructor
  · rintro ⟨t, ht, rfl⟩
    rwa [String.toList_ofList]
  · exact fun h => ⟨text.toList, h, String.ofList_toList⟩

/-- A tree is read as a text just if it is a string that says it. -/
theorem text?_eq_some_iff {text : String} :
    j.text? = some text ↔ ∃ s, j = .string s ∧ Says s text.toList := by
  cases j with
  | string s => simp [text?_string_eq_some_iff]
  | _ => simp [text?]

/-! ## Escaped texts -/

/-- A character is escaped by a letter, as a number below 32, or not at all. -/
theorem escapeChar_cases (c : Char) :
    (∃ letter, escapeChar c = ['\\', letter] ∧ shortEscape? letter = some c) ∨
    (∃ a b, escapeChar c = ['\\', 'u', '0', '0', a, b] ∧
      Hex.value4? '0' '0' a b = some c.toNat ∧ c.toNat < 32) ∨
    escapeChar c = [c] ∧ ' ' ≤ c ∧ c ≠ '"' ∧ c ≠ '\\' := by
  unfold escapeChar
  split
  · exact .inl ⟨_, rfl, rfl⟩
  · exact .inl ⟨_, rfl, rfl⟩
  · exact .inl ⟨_, rfl, rfl⟩
  · exact .inl ⟨_, rfl, rfl⟩
  · exact .inl ⟨_, rfl, rfl⟩
  · exact .inl ⟨_, rfl, rfl⟩
  · exact .inl ⟨_, rfl, rfl⟩
  · split
    · rename_i hlt
      have hcontrol : c.toNat < 32 := hlt
      have hzero : Hex.value? '0' = some 0 := rfl
      have hfirst : c.toNat / 16 < 16 := by omega
      have hlast : c.toNat % 16 < 16 := by omega
      refine .inr (.inl ⟨_, _, rfl, ?_, hcontrol⟩)
      simp [Hex.value4?, hzero, Hex.value?_digit _ hfirst, Hex.value?_digit _ hlast,
        Nat.div_add_mod']
    · rename_i hquote hescape _ _ _ _ _ hlt
      exact .inr (.inr ⟨rfl, Char.not_lt.1 hlt, hquote, hescape⟩)

/-- An escaped character says itself. -/
theorem says_escapeChar (c : Char) (h : Says s t) : Says (escapeChar c ++ s) (c :: t) := by
  obtain ⟨letter, heq, hletter⟩ | ⟨a, b, heq, hdigits, hcontrol⟩ | ⟨heq, -, -, hescape⟩ :=
    escapeChar_cases c
  · rw [heq]
    exact .short hletter h
  · rw [heq]
    have hhigh : isHighSurrogate c.toNat = false := by
      simp only [isHighSurrogate, Bool.and_eq_false_iff, decide_eq_false_iff_not]
      omega
    have hlow : isLowSurrogate c.toNat = false := by
      simp only [isLowSurrogate, Bool.and_eq_false_iff, decide_eq_false_iff_not]
      omega
    have hunicode := Says.unicode hdigits hhigh hlow h
    rw [Char.ofNat_toNat] at hunicode
    exact hunicode
  · rw [heq]
    exact .plain hescape h

theorem isSpelling_escapeChar (c : Char) (h : IsSpelling s) : IsSpelling (escapeChar c ++ s) := by
  obtain ⟨letter, heq, hletter⟩ | ⟨a, b, heq, hdigits, -⟩ | ⟨heq, hvisible, hquote, hescape⟩ :=
    escapeChar_cases c
  · rw [heq]
    exact .short (by rw [hletter]; rfl) h
  · rw [heq]
    exact .unicode (by rw [hdigits]; rfl) h
  · rw [heq]
    exact .plain hvisible hquote hescape h

/-- An escaped text says itself. -/
theorem says_escape (text : String) : Says (escape text) text.toList := by
  rw [escape]
  induction text.toList with
  | nil => exact .nil
  | cons c cs ih => exact says_escapeChar c ih

/-- An escaped text is a spelling of the grammar. -/
theorem isSpelling_escape (text : String) : IsSpelling (escape text) := by
  rw [escape]
  induction text.toList with
  | nil => exact .nil
  | cons c cs ih => exact isSpelling_escapeChar c ih

/-- An escaped text is read back. -/
theorem text?_ofText (text : String) : (ofText text).text? = some text :=
  text?_string_eq_some_iff.2 (says_escape text)

/-! ## Counts -/

/-- A tree is read as a count just if it is a number of digits only, with its value. -/
theorem nat?_eq_some_iff {n : Nat} : j.nat? = some n ↔
    ∃ ds, j = .number ds ∧ (∀ d ∈ ds, d.isDigit = true) ∧ Nat.ofDigitChars 10 ds 0 = n := by
  cases j with
  | number ds => simp [nat?, Nat.ofDigitChars, Nat.mul_comm]
  | _ => simp [nat?]

/-- A count is read back. -/
theorem nat?_ofNat (n : Nat) : (ofNat n).nat? = some n :=
  nat?_eq_some_iff.2 ⟨_, rfl, (Natural.isCount_toDigits n).isDigit,
    Nat.ofDigitChars_toDigits (by decide) (by decide)⟩

/-- The digits of a count are a number of the grammar. -/
theorem isNumber_toDigits (n : Nat) : IsNumber (Nat.toDigits 10 n) := by
  simpa using IsNumber.parts (.inl rfl) (Natural.isCount_toDigits n) .none .none

/-! ## Trees -/

/-- Every string, number and name in a tree is spelled as the grammar has it. -/
inductive IsSpelled : Json → Prop
  | null : IsSpelled .null
  | bool (b : Bool) : IsSpelled (.bool b)
  | number {s : List Char} (h : IsNumber s) : IsSpelled (.number s)
  | string {s : List Char} (h : IsSpelling s) : IsSpelled (.string s)
  | array {items : List Json} (h : ∀ item ∈ items, IsSpelled item) : IsSpelled (.array items)
  | object {members : List (List Char × Json)} (names : ∀ m ∈ members, IsSpelling m.1)
      (values : ∀ m ∈ members, IsSpelled m.2) : IsSpelled (.object members)

theorem IsValue.isText (h : IsValue j w) : IsText j w := by
  simpa using IsText.spaced allSpace_nil h allSpace_nil

theorem IsText.append (h : IsText j w) (hback : AllSpace back) : IsText j (w ++ back) := by
  obtain ⟨hfront, h, hback'⟩ := h
  rw [List.append_assoc, List.append_assoc]
  refine .spaced hfront h fun c hc => ?_
  rcases List.mem_append.1 hc with hc | hc
  exacts [hback' c hc, hback c hc]

/-- Items with commas between them, and white space at the end. -/
theorem isItems_intercalate {write : Json → List Char} (hne : items ≠ [])
    (h : ∀ item ∈ items, IsText item (write item)) (hback : AllSpace back) :
    IsItems items ([','].intercalate (items.map write) ++ back) := by
  induction items with
  | nil => exact absurd rfl hne
  | cons item items ih =>
    rw [List.forall_mem_cons] at h
    cases items with
    | nil => simpa using IsItems.last (h.1.append hback)
    | cons next items =>
      have htail := ih (List.cons_ne_nil next items) h.2
      simpa using IsItems.more h.1 htail

/-- Members with commas between them, and white space at the end. -/
theorem isMembers_intercalate {writeName writeValue : List Char × Json → List Char}
    (hne : members ≠ []) (names : ∀ m ∈ members, IsName m.1 (writeName m))
    (values : ∀ m ∈ members, IsText m.2 (writeValue m)) (hback : AllSpace back) :
    IsMembers members
      ([','].intercalate (members.map fun m => writeName m ++ ':' :: writeValue m) ++ back) := by
  induction members with
  | nil => exact absurd rfl hne
  | cons m members ih =>
    rw [List.forall_mem_cons] at names values
    cases members with
    | nil => simpa using IsMembers.last names.1 (values.1.append hback)
    | cons next members =>
      have htail := ih (List.cons_ne_nil next members) names.2 values.2
      simpa using IsMembers.more names.1 values.1 htail

/-- The layout puts nothing but white space in front of a part. -/
theorem allSpace_lead (isPretty : Bool) (level : Nat) : AllSpace (lead isPretty level) := by
  cases isPretty with
  | false => exact allSpace_nil
  | true =>
    refine List.forall_mem_cons.2 ⟨rfl, fun c hc => ?_⟩
    rw [List.eq_of_mem_replicate hc]
    rfl

theorem allSpace_gap (isPretty : Bool) : AllSpace (gap isPretty) := by
  cases isPretty with
  | false => exact allSpace_nil
  | true => exact List.forall_mem_singleton.2 rfl

theorem isText_writeItem {isPretty : Bool} {level : Nat}
    (h : IsValue j (j.writeAt isPretty level)) : IsText j (j.writeItem isPretty level) := by
  simpa [writeItem] using IsText.spaced (allSpace_lead isPretty level) h allSpace_nil

/-- A tree that is written in either layout is of the grammar. -/
theorem IsSpelled.isValue_writeAt (h : IsSpelled j) (isPretty : Bool) (level : Nat) :
    IsValue j (j.writeAt isPretty level) := by
  induction h generalizing level with
  | null => exact .null
  | bool b =>
    cases b
    · exact .bool_false
    · exact .bool_true
  | number h => exact .number h
  | string h => exact .string h
  | @array items _ ih =>
    rw [writeAt_array]
    cases items with
    | nil => exact .emptyArray allSpace_nil
    | cons item items =>
      exact .array (isItems_intercalate (List.cons_ne_nil item items)
        (fun item hitem => isText_writeItem (ih item hitem (level + 1))) (allSpace_lead _ _))
  | @object members names _ ih =>
    rw [writeAt_object]
    cases members with
    | nil => exact .emptyObject allSpace_nil
    | cons m members =>
      refine .object (isMembers_intercalate (List.cons_ne_nil m members) (fun m hm => ?_)
        (fun m hm => ?_) (allSpace_lead _ _))
      · simpa using IsName.spaced (allSpace_lead isPretty (level + 1)) (names m hm) allSpace_nil
      · simpa using IsText.spaced (allSpace_gap isPretty) (ih m hm (level + 1)) allSpace_nil

/-- A tree that was written is read back, whatever the layout. -/
theorem IsSpelled.parse?_write (h : IsSpelled j) (isPretty : Bool) :
    parse? (j.write isPretty) = some j := by
  rw [parse?_eq_some_iff, toList_write]
  exact (h.isValue_writeAt isPretty 0).isText

theorem isSpelled_ofText (text : String) : IsSpelled (ofText text) :=
  .string (isSpelling_escape text)

theorem isSpelled_ofNat (n : Nat) : IsSpelled (ofNat n) :=
  .number (isNumber_toDigits n)

/-- An object is spelled as the grammar has it if its values are, whatever its names. -/
theorem isSpelled_ofMembers {members : List (String × Json)} (h : ∀ m ∈ members, IsSpelled m.2) :
    IsSpelled (ofMembers members) := by
  refine .object (fun m hm => ?_) fun m hm => ?_
  all_goals obtain ⟨m', hm', rfl⟩ := List.mem_map.1 hm
  · exact isSpelling_escape m'.1
  · exact h m' hm'

end ScalaLex.Json
