import Mathlib.Data.List.DropRight
import ScalaLex.Json.Parser
import ScalaLex.Json.Printer
import ScalaLex.Proofs.DecimalDigits

/-!
# The grammar of JSON

Which texts spell which tree, without a reader : strings by their characters and escapes
(`IsSpelling`), numbers by their parts (`IsNumber`), and trees by the four relations `IsValue`,
`IsText`, `IsItems` and `IsMembers`, one constructor for each way to write one.

`Json.parse?` reads this grammar and nothing else (`parse?_eq_some_iff`). Each reader is compared
with its relation in both directions : what it takes off is of the form (`of_number?` and its
siblings), and in front of whatever may follow it takes all of the form off (`number?_append` and
its siblings). For trees both directions go by the count of steps (`Sound`, `Complete`), as that is
what the readers recurse on. A tree never takes more steps than it has characters.
-/

namespace ScalaLex.Json

variable {c : Char} {cs s w rest front back : List Char} {j : Json}

/-! ## Strings -/

/-- What may stand between the quotes of a string : escapes, and characters that need none. -/
inductive IsSpelling : List Char → Prop
  | nil : IsSpelling []
  | plain {c : Char} {s : List Char} (no_control : ' ' ≤ c) (no_quote : c ≠ '"')
      (no_escape : c ≠ '\\') (rest : IsSpelling s) : IsSpelling (c :: s)
  | short {c : Char} {s : List Char} (escape : (shortEscape? c).isSome) (rest : IsSpelling s) :
      IsSpelling ('\\' :: c :: s)
  | unicode {a b c d : Char} {s : List Char} (digits : (Hex.value4? a b c d).isSome)
      (rest : IsSpelling s) : IsSpelling ('\\' :: 'u' :: a :: b :: c :: d :: s)

/-- A spelling is taken off up to the quote behind it, whatever comes after. -/
theorem spelling?_append (h : IsSpelling s) (rest : List Char) :
    spelling? (s ++ '"' :: rest) = some (s, rest) := by
  induction h with
  | nil => rfl
  | plain no_control no_quote no_escape _ ih =>
    rw [List.cons_append, spelling?]
    · simp [ih, no_escape, Char.not_lt.2 no_control]
    all_goals simp [no_quote, no_escape]
  | @short c s escape _ ih =>
    have hu : c ≠ 'u' := by
      rintro rfl
      cases escape
    rw [List.cons_append, List.cons_append, spelling?]
    · simp [ih, escape]
    all_goals simp [hu]
  | unicode digits _ ih => simp [spelling?, ih, digits]

/-- What is taken off as a string is a spelling, with its closing quote right behind it. -/
theorem of_spelling? (h : spelling? cs = some (s, rest)) :
    IsSpelling s ∧ cs = s ++ '"' :: rest := by
  fun_induction spelling? cs generalizing s with
  | case1 => cases h
  | case2 rest => cases h; exact ⟨.nil, rfl⟩
  | case3 a b c d rest digits ih =>
    obtain ⟨⟨s', rest'⟩, hrest, heq⟩ := Option.map_eq_some_iff.1 h
    cases heq
    obtain ⟨hspelling, rfl⟩ := ih hrest
    exact ⟨.unicode digits hspelling, rfl⟩
  | case4 => cases h
  | case5 c rest _ escape ih =>
    obtain ⟨⟨s', rest'⟩, hrest, heq⟩ := Option.map_eq_some_iff.1 h
    cases heq
    obtain ⟨hspelling, rfl⟩ := ih hrest
    exact ⟨.short escape hspelling, rfl⟩
  | case6 => cases h
  | case7 => cases h
  | case8 c rest hquote _ _ hplain ih =>
    obtain ⟨⟨s', rest'⟩, hrest, heq⟩ := Option.map_eq_some_iff.1 h
    cases heq
    obtain ⟨hspelling, rfl⟩ := ih hrest
    simp only [Bool.or_eq_true, decide_eq_true_eq, beq_iff_eq, not_or, Char.not_lt] at hplain
    exact ⟨.plain hplain.1 (fun h => hquote h) hplain.2 hspelling, rfl⟩

/-! ## Numbers -/

/-- Digits, one or more. -/
def IsDigits (ds : List Char) : Prop := ds ≠ [] ∧ ∀ c ∈ ds, c.isDigit = true

/-- The fraction of a number, or nothing. -/
inductive IsFraction : List Char → Prop
  | none : IsFraction []
  | digits {ds : List Char} (h : IsDigits ds) : IsFraction ('.' :: ds)

/-- The exponent of a number, or nothing. -/
inductive IsExponent : List Char → Prop
  | none : IsExponent []
  | digits {e : Char} {sign ds : List Char} (letter : e = 'e' ∨ e = 'E')
      (sign_of : sign = [] ∨ sign = ['+'] ∨ sign = ['-']) (h : IsDigits ds) :
      IsExponent (e :: (sign ++ ds))

/-- A number : a sign, an integer with no needless zero in front, a fraction and an exponent. -/
inductive IsNumber : List Char → Prop
  | parts {sign whole fraction exponent : List Char} (hsign : sign = [] ∨ sign = ['-'])
      (hwhole : Natural.IsCount whole) (hfraction : IsFraction fraction)
      (hexponent : IsExponent exponent) :
      IsNumber (sign ++ (whole ++ (fraction ++ exponent)))

/-- No number goes on here. -/
def EndsNumber (rest : List Char) : Prop :=
  ∀ c ∈ rest.head?, c.isDigit = false ∧ c ≠ '.' ∧ c ≠ 'e' ∧ c ≠ 'E'

variable {ds sign whole fraction exponent : List Char}

/-- Digits are taken off as far as they go. -/
theorem digits?_append (h : IsDigits ds) (hrest : ∀ c ∈ rest.head?, c.isDigit = false) :
    digits? (ds ++ rest) = some (ds, rest) := by
  have hstop : rest.takeWhile Char.isDigit = [] ∧ rest.dropWhile Char.isDigit = rest := by
    cases rest with
    | nil => exact ⟨rfl, rfl⟩
    | cons c rest =>
      have hc := hrest c rfl
      simp [hc]
  have hne : ds.isEmpty = false := List.isEmpty_eq_false_iff.2 h.1
  rw [digits?, List.takeWhile_append_of_pos h.2, List.dropWhile_append_of_pos h.2, hstop.1, hstop.2,
    List.append_nil]
  simp [hne]

theorem of_digits? (h : digits? cs = some (ds, rest)) : IsDigits ds ∧ cs = ds ++ rest := by
  simp only [digits?, Option.ite_none_left_eq_some, Option.some.injEq, Prod.mk.injEq,
    List.isEmpty_iff] at h
  obtain ⟨hne, rfl, rfl⟩ := h
  exact ⟨⟨hne, fun c hc => List.mem_takeWhile_imp hc⟩, List.takeWhile_append_dropWhile.symm⟩

/-- An integer is taken off as a whole. Behind a zero that stands first nothing of it comes. -/
theorem integer?_append (h : Natural.IsCount ds) (hrest : ∀ c ∈ rest.head?, c.isDigit = false) :
    integer? (ds ++ rest) = some (ds, rest) := by
  obtain ⟨d, tail, rfl⟩ := List.exists_cons_of_ne_nil h.ne_nil
  by_cases hzero : d = '0'
  · subst hzero
    rw [h.zero rfl]
    rfl
  · rw [List.cons_append, integer?]
    · exact digits?_append ⟨h.ne_nil, h.isDigit⟩ hrest
    · exact fun _ heq => hzero (List.cons.inj heq).1

/-- What is taken off as an integer has no needless zero in front. -/
theorem of_integer? (h : integer? cs = some (ds, rest)) :
    Natural.IsCount ds ∧ cs = ds ++ rest := by
  unfold integer? at h
  split at h
  · cases h
    exact ⟨⟨List.forall_mem_singleton.2 rfl, List.cons_ne_nil _ _, fun _ => rfl⟩, rfl⟩
  · rename_i hzero
    obtain ⟨hds, rfl⟩ := of_digits? h
    refine ⟨⟨hds.2, hds.1, fun hhead => ?_⟩, rfl⟩
    obtain ⟨tail, rfl⟩ := List.head?_eq_some_iff.1 hhead
    exact absurd rfl (hzero _)

/-- A fraction is taken off as a whole, and nothing is where no dot comes. -/
theorem fraction?_append (h : IsFraction fraction)
    (hrest : ∀ c ∈ rest.head?, c.isDigit = false ∧ c ≠ '.') :
    fraction? (fraction ++ rest) = some (fraction, rest) := by
  cases h with
  | none =>
    rw [List.nil_append, fraction?]
    rintro rest' rfl
    exact absurd rfl (hrest '.' rfl).2
  | digits h =>
    rw [List.cons_append, fraction?, digits?_append h fun c hc => (hrest c hc).1]
    rfl

theorem of_fraction? (h : fraction? cs = some (fraction, rest)) :
    IsFraction fraction ∧ cs = fraction ++ rest := by
  unfold fraction? at h
  split at h
  · obtain ⟨⟨ds, rest'⟩, hds, heq⟩ := Option.map_eq_some_iff.1 h
    cases heq
    obtain ⟨hdigits, rfl⟩ := of_digits? hds
    exact ⟨.digits hdigits, rfl⟩
  · cases h
    exact ⟨.none, rfl⟩

/-- An exponent is taken off as a whole, and nothing is where no such letter comes. -/
theorem exponent?_append (h : IsExponent exponent)
    (hrest : ∀ c ∈ rest.head?, c.isDigit = false ∧ c ≠ 'e' ∧ c ≠ 'E') :
    exponent? (exponent ++ rest) = some (exponent, rest) := by
  cases h with
  | none =>
    cases rest with
    | nil => rfl
    | cons c rest =>
      obtain ⟨-, hlower, hupper⟩ := hrest c rfl
      cases rest <;> simp [exponent?, hlower, hupper]
  | @digits e sign ds letter sign_of h =>
    have hletter : (e == 'e' || e == 'E') = true := by simpa using letter
    have hdigits := digits?_append h fun c hc => (hrest c hc).1
    rcases sign_of with rfl | rfl | rfl
    · obtain ⟨d, tail, rfl⟩ := List.exists_cons_of_ne_nil h.1
      have hd := h.2 d List.mem_cons_self
      have hsign : (d == '+' || d == '-') = false := by
        simp [Natural.ne_of_isDigit hd (c := '+') rfl, Natural.ne_of_isDigit hd (c := '-') rfl]
      rw [List.cons_append] at hdigits
      simp [exponent?, hletter, hsign, hdigits]
    all_goals simp [exponent?, hletter, hdigits]

/-- What is taken off as an exponent is one, or nothing. -/
theorem of_exponent? (h : exponent? cs = some (exponent, rest)) :
    IsExponent exponent ∧ cs = exponent ++ rest := by
  unfold exponent? at h
  split at h
  · rename_i e s cs
    split at h
    · rename_i hletter
      have hletter : e = 'e' ∨ e = 'E' := by simpa using hletter
      split at h
      · rename_i hsign
        have hsign : [s] = [] ∨ [s] = ['+'] ∨ [s] = ['-'] := by simpa using hsign
        obtain ⟨⟨ds, rest'⟩, hds, heq⟩ := Option.map_eq_some_iff.1 h
        cases heq
        obtain ⟨hdigits, rfl⟩ := of_digits? hds
        exact ⟨.digits hletter hsign hdigits, rfl⟩
      · obtain ⟨⟨ds, rest'⟩, hds, heq⟩ := Option.map_eq_some_iff.1 h
        cases heq
        obtain ⟨hdigits, hcs⟩ := of_digits? hds
        exact ⟨.digits hletter (.inl rfl) hdigits, congrArg (e :: ·) hcs⟩
    · cases h
      exact ⟨.none, rfl⟩
  · split at h
    · cases h
    · cases h
      exact ⟨.none, rfl⟩
  · cases h
    exact ⟨.none, rfl⟩

/-- The parts of a number are read one after the other. -/
theorem number?_eq (h : sign = ['-'] ∨ sign = [] ∧ cs.head? ≠ some '-') :
    number? (sign ++ cs) = (integer? cs).bind fun x => (fraction? x.2).bind fun y =>
      (exponent? y.2).bind fun z => some (sign ++ (x.1 ++ (y.1 ++ z.1)), z.2) := by
  rcases h with rfl | ⟨rfl, hhead⟩
  · simp [number?]
  · rw [List.nil_append, number?]
    · simp
    · rintro rest rfl
      exact hhead rfl

/-- Behind the fraction of a number neither a digit nor a dot comes. -/
theorem EndsNumber.head?_exponent (h : IsExponent exponent) (hrest : EndsNumber rest) :
    ∀ c ∈ (exponent ++ rest).head?, c.isDigit = false ∧ c ≠ '.' := by
  intro c hc
  cases h with
  | none => exact ⟨(hrest c hc).1, (hrest c hc).2.1⟩
  | digits letter sign_of h =>
    cases hc
    rcases letter with rfl | rfl <;> decide

/-- Behind the integer of a number no digit comes. -/
theorem EndsNumber.head?_fraction (h : IsFraction fraction) (hexponent : IsExponent exponent)
    (hrest : EndsNumber rest) :
    ∀ c ∈ (fraction ++ (exponent ++ rest)).head?, c.isDigit = false := by
  intro c hc
  cases h with
  | none => exact (hrest.head?_exponent hexponent c hc).1
  | digits h =>
    cases hc
    rfl

/-- A number is taken off as a whole in front of what no number goes on with. -/
theorem number?_append (h : IsNumber w) (hrest : EndsNumber rest) :
    number? (w ++ rest) = some (w, rest) := by
  obtain ⟨hsign, hwhole, hfraction, hexponent⟩ := h
  rename_i sign whole fraction exponent
  have hsign' : sign = ['-'] ∨
      sign = [] ∧ (whole ++ (fraction ++ (exponent ++ rest))).head? ≠ some '-' := by
    refine hsign.symm.imp_right fun hnil => ⟨hnil, ?_⟩
    obtain ⟨d, ds, rfl⟩ := List.exists_cons_of_ne_nil hwhole.ne_nil
    intro hhead
    exact Natural.ne_of_isDigit (hwhole.isDigit d List.mem_cons_self) (c := '-') rfl
      (Option.some.inj hhead)
  have hassoc : sign ++ (whole ++ (fraction ++ exponent)) ++ rest =
      sign ++ (whole ++ (fraction ++ (exponent ++ rest))) := by
    simp only [List.append_assoc]
  rw [hassoc, number?_eq hsign', integer?_append hwhole (hrest.head?_fraction hfraction hexponent),
    Option.bind_some, fraction?_append hfraction (hrest.head?_exponent hexponent), Option.bind_some,
    exponent?_append hexponent fun c hc => ⟨(hrest c hc).1, (hrest c hc).2.2⟩]
  rfl

/-- What is taken off as a number is one. -/
theorem of_number? (h : number? cs = some (w, rest)) : IsNumber w ∧ cs = w ++ rest := by
  obtain ⟨sign, cs', rfl, hsign⟩ : ∃ sign cs', cs = sign ++ cs' ∧
      (sign = ['-'] ∨ sign = [] ∧ cs'.head? ≠ some '-') := by
    by_cases hminus : cs.head? = some '-'
    · obtain ⟨tail, rfl⟩ := List.head?_eq_some_iff.1 hminus
      exact ⟨['-'], tail, rfl, .inl rfl⟩
    · exact ⟨[], cs, rfl, .inr ⟨rfl, hminus⟩⟩
  rw [number?_eq hsign] at h
  obtain ⟨⟨whole, cs₁⟩, hw, h⟩ := Option.bind_eq_some_iff.1 h
  obtain ⟨⟨fraction, cs₂⟩, hf, h⟩ := Option.bind_eq_some_iff.1 h
  obtain ⟨⟨exponent, cs₃⟩, he, heq⟩ := Option.bind_eq_some_iff.1 h
  cases heq
  obtain ⟨hwhole, rfl⟩ := of_integer? hw
  obtain ⟨hfraction, rfl⟩ := of_fraction? hf
  obtain ⟨hexponent, rfl⟩ := of_exponent? he
  refine ⟨.parts (hsign.symm.imp_left And.left) hwhole hfraction hexponent, ?_⟩
  simp only [List.append_assoc]

/-! ## White space and names -/

/-- White space only. -/
def AllSpace (w : List Char) : Prop := ∀ c ∈ w, isSpace c = true

theorem allSpace_nil : AllSpace [] := fun _ h => absurd h List.not_mem_nil

theorem isSpace_cases (h : isSpace c = true) : c = ' ' ∨ c = '\t' ∨ c = '\n' ∨ c = '\r' := by
  simpa [isSpace, or_assoc] using h

theorem skipSpace_append (h : AllSpace front) (cs : List Char) :
    skipSpace (front ++ cs) = skipSpace cs :=
  List.dropWhile_append_of_pos h

theorem skipSpace_of_head? (h : ∀ c ∈ cs.head?, isSpace c = false) : skipSpace cs = cs := by
  cases cs with
  | nil => rfl
  | cons c cs => exact List.dropWhile_cons_of_neg (by simp [h c rfl])

theorem skipSpace_cons (h : isSpace c = false) (cs : List Char) : skipSpace (c :: cs) = c :: cs :=
  List.dropWhile_cons_of_neg (by simp [h])

/-- White space is dropped up to the character behind it. -/
theorem skipSpace_back (h : AllSpace back) (hc : isSpace c = false) (rest : List Char) :
    skipSpace (back ++ c :: rest) = c :: rest := by
  rw [skipSpace_append h, skipSpace_cons hc]

/-- What is dropped is white space. -/
theorem exists_skipSpace (cs : List Char) :
    ∃ front, AllSpace front ∧ cs = front ++ skipSpace cs :=
  ⟨cs.takeWhile isSpace, fun _ => List.mem_takeWhile_imp, List.takeWhile_append_dropWhile.symm⟩

/-- A name between its quotes, with white space around it. -/
inductive IsName (name : List Char) : List Char → Prop
  | spaced {front back : List Char} (hfront : AllSpace front) (h : IsSpelling name)
      (hback : AllSpace back) : IsName name (front ++ (quote name ++ back))

variable {name n : List Char}

/-- A name is taken off with the colon behind it. -/
theorem name?_append (h : IsName name n) (rest : List Char) :
    name? (n ++ ':' :: rest) = some (name, rest) := by
  obtain ⟨hfront, h, hback⟩ := h
  rename_i front back
  have hassoc : front ++ (quote name ++ back) ++ ':' :: rest =
      front ++ '"' :: (name ++ '"' :: (back ++ ':' :: rest)) := by
    simp [quote]
  rw [hassoc, name?, skipSpace_append hfront, skipSpace_cons rfl]
  simp [spelling?_append h, skipSpace_append hback, skipSpace_cons (c := ':') rfl]

/-- What is taken off as a name is one, with a colon right behind it. -/
theorem of_name? (h : name? cs = some (name, rest)) :
    ∃ n, IsName name n ∧ cs = n ++ ':' :: rest := by
  unfold name? at h
  split at h
  · rename_i rest' hquote
    obtain ⟨⟨name', cs'⟩, hspelling, h⟩ := Option.bind_eq_some_iff.1 h
    dsimp only at h
    split at h
    · rename_i hcolon
      cases h
      obtain ⟨hname, rfl⟩ := of_spelling? hspelling
      obtain ⟨front, hfront, hcs⟩ := exists_skipSpace cs
      obtain ⟨back, hback, hcs'⟩ := exists_skipSpace cs'
      refine ⟨_, .spaced hfront hname hback, ?_⟩
      rw [hcs, hquote, hcs', hcolon]
      simp [quote]
    · cases h
  · cases h

/-! ## Values -/

mutual

/-- A tree is written, with no white space around it. -/
inductive IsValue : Json → List Char → Prop
  | null : IsValue .null ['n', 'u', 'l', 'l']
  | bool_true : IsValue (.bool true) ['t', 'r', 'u', 'e']
  | bool_false : IsValue (.bool false) ['f', 'a', 'l', 's', 'e']
  | number {w : List Char} (h : IsNumber w) : IsValue (.number w) w
  | string {s : List Char} (h : IsSpelling s) : IsValue (.string s) (quote s)
  | emptyArray {w : List Char} (h : AllSpace w) : IsValue (.array []) ('[' :: (w ++ [']']))
  | array {items : List Json} {w : List Char} (h : IsItems items w) :
      IsValue (.array items) ('[' :: (w ++ [']']))
  | emptyObject {w : List Char} (h : AllSpace w) : IsValue (.object []) ('{' :: (w ++ ['}']))
  | object {members : List (List Char × Json)} {w : List Char} (h : IsMembers members w) :
      IsValue (.object members) ('{' :: (w ++ ['}']))

/-- A tree is written, with white space around it. -/
inductive IsText : Json → List Char → Prop
  | spaced {j : Json} {front w back : List Char} (hfront : AllSpace front) (h : IsValue j w)
      (hback : AllSpace back) : IsText j (front ++ (w ++ back))

/-- Trees are written with commas between them. -/
inductive IsItems : List Json → List Char → Prop
  | last {item : Json} {w : List Char} (h : IsText item w) : IsItems [item] w
  | more {item : Json} {items : List Json} {w ws : List Char} (h : IsText item w)
      (hs : IsItems items ws) : IsItems (item :: items) (w ++ ',' :: ws)

/-- Members are written with commas between them, and each with a colon behind its name. -/
inductive IsMembers : List (List Char × Json) → List Char → Prop
  | last {name n : List Char} {value : Json} {w : List Char} (hn : IsName name n)
      (h : IsText value w) : IsMembers [(name, value)] (n ++ ':' :: w)
  | more {name n : List Char} {value : Json} {members : List (List Char × Json)}
      {w ws : List Char} (hn : IsName name n) (h : IsText value w) (hs : IsMembers members ws) :
      IsMembers ((name, value) :: members) (n ++ ':' :: (w ++ ',' :: ws))

end

/-! ## One step of the readers -/

variable {items : List Json} {members : List (List Char × Json)} {steps : Nat} {text : String}

theorem skipSpace_skipSpace (cs : List Char) : skipSpace (skipSpace cs) = skipSpace cs :=
  List.dropWhile_idempotent isSpace cs

/-- White space in front of a tree makes no difference to its reader. -/
theorem value?_skipSpace (steps : Nat) (cs : List Char) :
    value? steps (skipSpace cs) = value? steps cs := by
  cases steps with
  | zero => rw [value?, value?]
  | succ steps => rw [value?, value?, skipSpace_skipSpace]

theorem items?_skipSpace (steps : Nat) (cs : List Char) :
    items? steps (skipSpace cs) = items? steps cs := by
  cases steps with
  | zero => rw [items?, items?]
  | succ steps => rw [items?, items?, value?_skipSpace]

theorem members?_skipSpace (steps : Nat) (cs : List Char) :
    members? steps (skipSpace cs) = members? steps cs := by
  cases steps with
  | zero => rw [members?, members?]
  | succ steps => rw [members?, members?, name?, skipSpace_skipSpace, name?]

/-- A bracket starts the empty array if the closing one comes next, and else one with items. -/
theorem value?_bracket (steps : Nat) (cs : List Char) : value? (steps + 1) ('[' :: cs) =
    if (skipSpace cs).head? = some ']' then some (.array [], (skipSpace cs).tail)
    else (items? steps cs).map fun x => (.array x.1, x.2) := by
  rw [value?, skipSpace_cons rfl]
  split
  case h_5 heq =>
    cases heq
    split
    · rename_i hclose
      simp [hclose]
    · rename_i hopen
      rw [if_neg fun h => (List.head?_eq_some_iff.1 h).elim hopen, items?_skipSpace]
  case h_7 hother _ => exact absurd rfl (hother cs)
  all_goals
    rename_i heq
    cases heq

/-- A brace starts the empty object if the closing one comes next, and else one with members. -/
theorem value?_brace (steps : Nat) (cs : List Char) : value? (steps + 1) ('{' :: cs) =
    if (skipSpace cs).head? = some '}' then some (.object [], (skipSpace cs).tail)
    else (members? steps cs).map fun x => (.object x.1, x.2) := by
  rw [value?, skipSpace_cons rfl]
  split
  case h_6 heq =>
    cases heq
    split
    · rename_i hclose
      simp [hclose]
    · rename_i hopen
      rw [if_neg fun h => (List.head?_eq_some_iff.1 h).elim hopen, members?_skipSpace]
  case h_7 hother => exact absurd rfl (hother cs)
  all_goals
    rename_i heq
    cases heq

/-! ## What is read is in the grammar -/

/-- What is read with so many steps is of the grammar. -/
structure Sound (steps : Nat) : Prop where
  value : ∀ {cs j rest}, value? steps cs = some (j, rest) →
    ∃ front w, AllSpace front ∧ IsValue j w ∧ cs = front ++ (w ++ rest)
  items : ∀ {cs items rest}, items? steps cs = some (items, rest) →
    ∃ w, IsItems items w ∧ cs = w ++ ']' :: rest
  members : ∀ {cs members rest}, members? steps cs = some (members, rest) →
    ∃ w, IsMembers members w ∧ cs = w ++ '}' :: rest

/-- A tree that takes one step more is of the grammar, by cases on its first character. -/
theorem Sound.value_succ (hs : Sound steps) (h : value? (steps + 1) cs = some (j, rest)) :
    ∃ front w, AllSpace front ∧ IsValue j w ∧ cs = front ++ (w ++ rest) := by
  obtain ⟨front, hfront, hcs⟩ := exists_skipSpace cs
  -- The reader drops the white space first and then looks at the first characters only.
  suffices ∃ w, IsValue j w ∧ skipSpace cs = w ++ rest by
    obtain ⟨w, hw, heq⟩ := this
    exact ⟨front, w, hfront, hw, by rw [← heq, ← hcs]⟩
  rw [value?] at h
  split at h
  · rename_i hnull
    cases h
    exact ⟨_, .null, hnull⟩
  · rename_i htrue
    cases h
    exact ⟨_, .bool_true, htrue⟩
  · rename_i hfalse
    cases h
    exact ⟨_, .bool_false, hfalse⟩
  · rename_i cs' hquote
    obtain ⟨⟨s, rest'⟩, hspelling, heq⟩ := Option.map_eq_some_iff.1 h
    cases heq
    obtain ⟨hs, rfl⟩ := of_spelling? hspelling
    exact ⟨_, .string hs, by rw [hquote]; simp [quote]⟩
  · rename_i cs' hbracket
    obtain ⟨front', hfront', hcs'⟩ := exists_skipSpace cs'
    split at h
    · rename_i hclose
      cases h
      exact ⟨_, .emptyArray hfront', by rw [hbracket, hcs', hclose]; simp⟩
    · obtain ⟨⟨items, rest'⟩, hitems, heq⟩ := Option.map_eq_some_iff.1 h
      cases heq
      rw [items?_skipSpace] at hitems
      obtain ⟨w, hw, rfl⟩ := hs.items hitems
      exact ⟨_, .array hw, by rw [hbracket]; simp⟩
  · rename_i cs' hbrace
    obtain ⟨front', hfront', hcs'⟩ := exists_skipSpace cs'
    split at h
    · rename_i hclose
      cases h
      exact ⟨_, .emptyObject hfront', by rw [hbrace, hcs', hclose]; simp⟩
    · obtain ⟨⟨members, rest'⟩, hmembers, heq⟩ := Option.map_eq_some_iff.1 h
      cases heq
      rw [members?_skipSpace] at hmembers
      obtain ⟨w, hw, rfl⟩ := hs.members hmembers
      exact ⟨_, .object hw, by rw [hbrace]; simp⟩
  · obtain ⟨⟨s, rest'⟩, hnumber, heq⟩ := Option.map_eq_some_iff.1 h
    cases heq
    obtain ⟨hs, heq⟩ := of_number? hnumber
    exact ⟨_, .number hs, heq⟩

/-- Items are of the grammar with one step more : a comma goes on with them, a bracket ends them. -/
theorem Sound.items_succ (hs : Sound steps)
    (h : items? (steps + 1) cs = some (items, rest)) :
    ∃ w, IsItems items w ∧ cs = w ++ ']' :: rest := by
  rw [items?] at h
  obtain ⟨⟨item, cs'⟩, hitem, htail⟩ := Option.bind_eq_some_iff.1 h
  obtain ⟨front, w, hfront, hw, rfl⟩ := hs.value hitem
  obtain ⟨back, hback, hcs'⟩ := exists_skipSpace cs'
  have htext : IsText item (front ++ (w ++ back)) := .spaced hfront hw hback
  dsimp only at htail
  split at htail
  · rename_i cs'' hcomma
    obtain ⟨⟨items', rest'⟩, hitems, heq⟩ := Option.map_eq_some_iff.1 htail
    cases heq
    obtain ⟨ws, hws, rfl⟩ := hs.items hitems
    refine ⟨_, .more htext hws, ?_⟩
    rw [hcs', hcomma]
    simp
  · rename_i hbracket
    cases htail
    refine ⟨_, .last htext, ?_⟩
    rw [hcs', hbracket]
    simp
  · cases htail

/-- Members are of the grammar with one step more : a comma goes on with them, a brace ends them. -/
theorem Sound.members_succ (hs : Sound steps)
    (h : members? (steps + 1) cs = some (members, rest)) :
    ∃ w, IsMembers members w ∧ cs = w ++ '}' :: rest := by
  rw [members?] at h
  obtain ⟨⟨name, cs₁⟩, hname, hbody⟩ := Option.bind_eq_some_iff.1 h
  obtain ⟨n, hn, rfl⟩ := of_name? hname
  obtain ⟨⟨value, cs₂⟩, hvalue, htail⟩ := Option.bind_eq_some_iff.1 hbody
  obtain ⟨front, w, hfront, hw, rfl⟩ := hs.value hvalue
  obtain ⟨back, hback, hcs₂⟩ := exists_skipSpace cs₂
  have htext : IsText value (front ++ (w ++ back)) := .spaced hfront hw hback
  dsimp only at htail
  split at htail
  · rename_i cs₃ hcomma
    obtain ⟨⟨members', rest'⟩, hmembers, heq⟩ := Option.map_eq_some_iff.1 htail
    cases heq
    obtain ⟨ws, hws, rfl⟩ := hs.members hmembers
    refine ⟨_, .more hn htext hws, ?_⟩
    rw [hcs₂, hcomma]
    simp
  · rename_i hbrace
    cases htail
    refine ⟨_, .last hn htext, ?_⟩
    rw [hcs₂, hbrace]
    simp
  · cases htail

/-- Whatever the number of steps, nothing but the grammar is read. -/
theorem sound (steps : Nat) : Sound steps := by
  induction steps with
  | zero =>
    constructor
    all_goals
      intro _ _ _ h
      cases h
  | succ steps ih => exact ⟨ih.value_succ, ih.items_succ, ih.members_succ⟩

/-! ## How trees start and what may follow them -/

/-- A number starts with a digit or a minus sign. -/
theorem IsNumber.append_ne (h : IsNumber w) (hdigit : c.isDigit = false) (hminus : c ≠ '-')
    (rest tail : List Char) : w ++ rest ≠ c :: tail := by
  obtain ⟨hsign, hwhole, -, -⟩ := h
  rcases hsign with rfl | rfl
  · obtain ⟨d, ds, rfl⟩ := List.exists_cons_of_ne_nil hwhole.ne_nil
    intro heq
    exact Natural.ne_of_isDigit (hwhole.isDigit d List.mem_cons_self) hdigit (List.cons.inj heq).1
  · intro heq
    exact hminus (List.cons.inj heq).1.symm

/-- No tree starts with white space, or with the bracket that ends an array. -/
theorem IsValue.append_ne (h : IsValue j w) (hc : isSpace c = true ∨ c = ']')
    (rest tail : List Char) : w ++ rest ≠ c :: tail := by
  intro heq
  cases h with
  | number h =>
    refine h.append_ne ?_ ?_ rest tail heq
    all_goals
      rcases hc with hspace | rfl
      · rcases isSpace_cases hspace with rfl | rfl | rfl | rfl <;> decide
      · decide
  | _ =>
    rw [← (List.cons.inj heq).1] at hc
    exact absurd hc (by decide)

/-- The white space in front of a tree is dropped, and no more. -/
theorem skipSpace_value (h : IsValue j w) (hfront : AllSpace front) (rest : List Char) :
    skipSpace (front ++ (w ++ rest)) = w ++ rest := by
  rw [skipSpace_append hfront, skipSpace_of_head?]
  intro c hc
  obtain ⟨tail, htail⟩ := List.head?_eq_some_iff.1 hc
  by_contra hspace
  exact h.append_ne (.inl (Bool.not_eq_false _ ▸ hspace)) rest tail htail

theorem IsValue.ne_nil (h : IsValue j w) : w ≠ [] := by
  rintro rfl
  exact h.append_ne (.inl rfl) [' '] [] rfl

/-- Where a tree is written no array ends, so an array with items is not taken for the empty one. -/
theorem IsText.head?_ne (h : IsText j w) (rest : List Char) :
    (skipSpace (w ++ rest)).head? ≠ some ']' := by
  obtain ⟨hfront, hw, -⟩ := h
  rw [List.append_assoc, List.append_assoc, skipSpace_value hw hfront]
  intro hhead
  obtain ⟨tail, htail⟩ := List.head?_eq_some_iff.1 hhead
  exact hw.append_ne (.inr rfl) _ tail htail

theorem IsItems.head?_ne (h : IsItems items w) (rest : List Char) :
    (skipSpace (w ++ rest)).head? ≠ some ']' := by
  cases h with
  | last h => exact h.head?_ne rest
  | more h hs =>
    rw [List.append_assoc]
    exact h.head?_ne _

/-- Where a name is written no object ends. -/
theorem IsName.head?_ne (h : IsName name n) (rest : List Char) :
    (skipSpace (n ++ rest)).head? ≠ some '}' := by
  obtain ⟨hfront, -, -⟩ := h
  rw [List.append_assoc, List.append_assoc, skipSpace_append hfront, quote, List.cons_append,
    List.cons_append, skipSpace_cons rfl]
  simp

theorem IsMembers.head?_ne (h : IsMembers members w) (rest : List Char) :
    (skipSpace (w ++ rest)).head? ≠ some '}' := by
  cases h with
  | last hn h =>
    rw [List.append_assoc]
    exact hn.head?_ne _
  | more hn h hs =>
    rw [List.append_assoc]
    exact hn.head?_ne _

/-- What comes behind a tree within another is no part of a number. -/
theorem endsNumber_append (h : AllSpace back) (hrest : EndsNumber rest) :
    EndsNumber (back ++ rest) := by
  cases back with
  | nil => exact hrest
  | cons c back =>
    intro d hd
    cases hd
    rcases isSpace_cases (h c List.mem_cons_self) with rfl | rfl | rfl | rfl <;> decide

/-- A comma or a closing bracket is no part of a number. -/
theorem endsNumber_cons (h : c = ',' ∨ c = ']' ∨ c = '}') (rest : List Char) :
    EndsNumber (c :: rest) := by
  intro d hd
  cases hd
  rcases h with rfl | rfl | rfl <;> decide

/-! ## All of the grammar is read -/

/-- A number is read as itself. -/
theorem value?_number (h : IsNumber w) (hfront : AllSpace front) (hrest : EndsNumber rest)
    (steps : Nat) : value? (steps + 1) (front ++ (w ++ rest)) = some (.number w, rest) := by
  rw [value?, skipSpace_value (.number h) hfront]
  split
  case h_7 => rw [number?_append h hrest]; rfl
  all_goals
    rename_i heq
    exact absurd heq (h.append_ne (by decide) (by decide) rest _)

/-- A string between its quotes is read as itself. -/
theorem value?_string (steps : Nat) (h : IsSpelling s) (rest : List Char) :
    value? (steps + 1) (quote s ++ rest) = some (.string s, rest) := by
  have hquote : quote s ++ rest = '"' :: (s ++ '"' :: rest) := by simp [quote]
  have hvalue : value? (steps + 1) ('"' :: (s ++ '"' :: rest)) =
      (spelling? (s ++ '"' :: rest)).map fun x => (.string x.1, x.2) := by
    rw [value?, skipSpace_cons rfl]
    rfl
  rw [hquote, hvalue, spelling?_append h]
  rfl

/-- What is of the grammar is read with so many steps. -/
structure Complete (steps : Nat) : Prop where
  value : ∀ {front w rest j}, AllSpace front → IsValue j w → EndsNumber rest →
    w.length ≤ steps → value? steps (front ++ (w ++ rest)) = some (j, rest)
  items : ∀ {items w} rest, IsItems items w → w.length + 1 ≤ steps →
    items? steps (w ++ ']' :: rest) = some (items, rest)
  members : ∀ {members w} rest, IsMembers members w → w.length + 1 ≤ steps →
    members? steps (w ++ '}' :: rest) = some (members, rest)

/-- A tree is read with one step more than what is inside of it takes. -/
theorem Complete.value_succ (hs : Complete steps) (hfront : AllSpace front)
    (h : IsValue j w) (hrest : EndsNumber rest) (hsteps : w.length ≤ steps + 1) :
    value? (steps + 1) (front ++ (w ++ rest)) = some (j, rest) := by
  rw [← value?_skipSpace, skipSpace_value h hfront]
  -- A bracket takes a step and two characters, so the steps that are left do for what is within.
  cases h with
  | null => rfl
  | bool_true => rfl
  | bool_false => rfl
  | number h => exact value?_number h allSpace_nil hrest steps
  | string h => exact value?_string steps h rest
  | emptyArray h =>
    rw [List.cons_append, value?_bracket, List.append_assoc, List.singleton_append,
      skipSpace_back h rfl]
    rfl
  | @array items w h =>
    have hw : w.length + 1 ≤ steps := by simpa using hsteps
    rw [List.cons_append, value?_bracket, List.append_assoc, if_neg (h.head?_ne _),
      List.singleton_append, hs.items rest h hw]
    rfl
  | emptyObject h =>
    rw [List.cons_append, value?_brace, List.append_assoc, List.singleton_append,
      skipSpace_back h rfl]
    rfl
  | @object members w h =>
    have hw : w.length + 1 ≤ steps := by simpa using hsteps
    rw [List.cons_append, value?_brace, List.append_assoc, if_neg (h.head?_ne _),
      List.singleton_append, hs.members rest h hw]
    rfl

/-- A tree within another is read up to the white space behind it. -/
theorem Complete.value_isText (hs : Complete steps) (h : IsText j w)
    (hc : c = ',' ∨ c = ']' ∨ c = '}') (hsteps : w.length ≤ steps) (rest : List Char) :
    ∃ back, AllSpace back ∧ value? steps (w ++ c :: rest) = some (j, back ++ c :: rest) := by
  obtain ⟨hfront, hw, hback⟩ := h
  rename_i front w back
  refine ⟨back, hback, ?_⟩
  rw [List.append_assoc, List.append_assoc]
  refine hs.value hfront hw (endsNumber_append hback (endsNumber_cons hc rest)) ?_
  simp only [List.length_append] at hsteps
  omega

/-- Items are read with one step more than each of them takes. -/
theorem Complete.items_succ (hs : Complete steps) (rest : List Char) (h : IsItems items w)
    (hsteps : w.length + 1 ≤ steps + 1) :
    items? (steps + 1) (w ++ ']' :: rest) = some (items, rest) := by
  cases h with
  | last h =>
    obtain ⟨back, hback, hvalue⟩ := hs.value_isText h (.inr (.inl rfl)) (by omega) rest
    rw [items?, hvalue]
    simp [skipSpace_back hback (c := ']') rfl]
  | @more item items w ws h htail =>
    rw [List.length_append, List.length_cons] at hsteps
    obtain ⟨back, hback, hvalue⟩ := hs.value_isText h (.inl rfl) (by omega) (ws ++ ']' :: rest)
    rw [List.append_assoc, List.cons_append, items?, hvalue]
    simp [skipSpace_back hback (c := ',') rfl, hs.items rest htail (by omega)]

/-- Members are read with one step more than each of them takes. -/
theorem Complete.members_succ (hs : Complete steps) (rest : List Char) (h : IsMembers members w)
    (hsteps : w.length + 1 ≤ steps + 1) :
    members? (steps + 1) (w ++ '}' :: rest) = some (members, rest) := by
  cases h with
  | @last name n value w hn h =>
    rw [List.length_append, List.length_cons] at hsteps
    obtain ⟨back, hback, hvalue⟩ := hs.value_isText h (.inr (.inr rfl)) (by omega) rest
    rw [List.append_assoc, List.cons_append, members?, name?_append hn]
    simp [hvalue, skipSpace_back hback (c := '}') rfl]
  | @more name n value members w ws hn h htail =>
    simp only [List.length_append, List.length_cons] at hsteps
    obtain ⟨back, hback, hvalue⟩ := hs.value_isText h (.inl rfl) (by omega) (ws ++ '}' :: rest)
    rw [List.append_assoc, List.cons_append, List.append_assoc, List.cons_append, members?,
      name?_append hn]
    simp [hvalue, skipSpace_back hback (c := ',') rfl, hs.members rest htail (by omega)]

/-- With as many steps as there are characters, all of the grammar is read. -/
theorem complete (steps : Nat) : Complete steps := by
  induction steps with
  | zero =>
    constructor
    -- No tree is empty, so none is to be read without a step.
    · intro front w rest j _ h _ hsteps
      exact absurd (List.length_eq_zero_iff.1 (Nat.le_zero.1 hsteps)) h.ne_nil
    · intro items w rest _ hsteps
      omega
    · intro members w rest _ hsteps
      omega
  | succ steps ih => exact ⟨ih.value_succ, ih.items_succ, ih.members_succ⟩

/-! ## Texts -/

/-- A text that is read is of the grammar. -/
theorem parse?_isText (h : parse? text = some j) : IsText j text.toList := by
  rw [parse?] at h
  split at h
  · rename_i j' rest hvalue
    rw [Option.ite_none_right_eq_some, List.isEmpty_iff] at h
    obtain ⟨hrest, heq⟩ := h
    cases heq
    obtain ⟨front, w, hfront, hw, htext⟩ := (sound _).value hvalue
    obtain ⟨back, hback, hsplit⟩ := exists_skipSpace rest
    rw [htext, hsplit, hrest, List.append_nil]
    exact .spaced hfront hw hback
  · cases h

/-- The texts that are read are those of the grammar, each as the one tree it spells. -/
theorem parse?_eq_some_iff : parse? text = some j ↔ IsText j text.toList := by
  refine ⟨parse?_isText, fun h => ?_⟩
  rw [parse?]
  generalize text.toList = cs at *
  obtain ⟨hfront, hw, hback⟩ := h
  rename_i front w back
  have hlength : w.length ≤ (front ++ (w ++ back)).length + 1 := by
    simp only [List.length_append]
    omega
  have hnothing : EndsNumber [] := by simp [EndsNumber]
  have hends : EndsNumber back := by simpa using endsNumber_append hback hnothing
  have hskip : skipSpace back = [] := List.dropWhile_eq_nil_iff.2 hback
  rw [(complete _).value hfront hw hends hlength]
  simp [hskip]

end ScalaLex.Json
