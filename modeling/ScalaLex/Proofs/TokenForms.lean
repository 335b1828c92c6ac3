import ScalaLex.Proofs.WrittenJson
import ScalaLex.Token.Json

/-!
# The forms of a token

Which JSON trees stand for a token, without a reader : an array of its three parts, or an object in
which each part comes exactly once, with a kind, a text and a line in any of their spellings
(`Token.IsForm`). These trees are read as the token and no others are (`Token.ofJson?_eq_some_iff`),
so with the grammar of JSON every text that is read as a token is known
(`Token.parse?_eq_some_iff`).

A token is written in one of these forms, so it is read back, whatever its text
(`Token.json_round_trip`). It does not matter in which form it was found.
-/

namespace ScalaLex

open Json

/-- A kind by its name, or as an object that maps its name to null. -/
inductive Kind.IsForm (k : Kind) : Json → Prop
  | name {s : List Char} (h : Says s k.name.toList) : IsForm k (.string s)
  | object {s : List Char} (h : Says s k.name.toList) : IsForm k (.object [(s, .null)])

namespace Token

/-- Digits with the value of a line. No other number counts, not even one with the same value. -/
inductive IsLine (line : UInt32) : Json → Prop
  | digits {ds : List Char} (h : ∀ d ∈ ds, d.isDigit = true)
      (value : Nat.ofDigitChars 10 ds 0 = line.toNat) : IsLine line (.number ds)

/-- The one member with a name has a value. -/
def HasMember (name : String) (value : Json) (members : List (List Char × Json)) : Prop :=
  ∃ front s back, members = front ++ (s, value) :: back ∧ Says s name.toList ∧
    ∀ m ∈ front ++ back, ¬ Says m.1 name.toList

/-- A token as an array of its three parts, or as an object in which each of them comes once, in
any order and with any other members. -/
inductive IsForm (t : Token) : Json → Prop
  | array {kind line : Json} {s : List Char} (hkind : t.kind.IsForm kind)
      (hvalue : Says s t.value.toList) (hline : IsLine t.line line) :
      IsForm t (.array [kind, .string s, line])
  | object {members : List (List Char × Json)} {kind line : Json} {s : List Char}
      (hnames : ∀ m ∈ members, ∃ name, Says m.1 name)
      (hkind : HasMember "kind" kind members) (hvalue : HasMember "value" (.string s) members)
      (hline : HasMember "line" line members) (kind_form : t.kind.IsForm kind)
      (value_form : Says s t.value.toList) (line_form : IsLine t.line line) :
      IsForm t (.object members)

end Token

variable {k : Kind} {t : Token} {j : Json}

/-! ## Parts of a token -/

theorem Kind.ofName?_eq_some_iff {name : String} : ofName? name = some k ↔ name = k.name := by
  refine ⟨fun h => ?_, fun h => h ▸ ofName?_name k⟩
  have hfound := List.find?_some h
  exact (eq_of_beq hfound).symm

/-- The trees that are read as a kind are its two forms. -/
theorem Kind.ofJson?_eq_some_iff : ofJson? j = some k ↔ k.IsForm j := by
  have htext (j : Json) : j.text?.bind ofName? = some k ↔
      ∃ s, j = .string s ∧ Says s k.name.toList := by
    simp [Option.bind_eq_some_iff, Kind.ofName?_eq_some_iff, text?_eq_some_iff]
  constructor
  · intro h
    unfold ofJson? at h
    split at h
    · obtain ⟨s, heq, hspell⟩ := (htext _).1 h
      cases heq
      exact .object hspell
    · obtain ⟨s, rfl, hspell⟩ := (htext _).1 h
      exact .name hspell
  · rintro (hspell | hspell)
    · exact (htext _).2 ⟨_, rfl, hspell⟩
    · exact (htext _).2 ⟨_, rfl, hspell⟩

namespace Token

/-- The trees that are read as a line are digits with its value, so no line is read from a number
that is too large. -/
theorem line?_eq_some_iff {line : UInt32} : line? j = some line ↔ IsLine line j := by
  have hsize := line.toNat_lt_size
  constructor
  · intro h
    obtain ⟨n, hn, heq⟩ := Option.map_eq_some_iff.1 h
    rw [Option.filter_eq_some_iff, decide_eq_true_eq] at hn
    obtain ⟨ds, rfl, hdigits, hvalue⟩ := nat?_eq_some_iff.1 hn.1
    refine .digits hdigits ?_
    rw [hvalue, ← heq]
    exact (Nat.mod_eq_of_lt hn.2).symm
  · rintro ⟨hdigits, hvalue⟩
    have hnat := nat?_eq_some_iff.2 ⟨_, rfl, hdigits, hvalue⟩
    simp [line?, hnat, Option.filter_some, hsize]

/-- Three trees are read as a token just if each is a form of its part. -/
theorem ofParts?_eq_some_iff {kind value line : Json} : ofParts? kind value line = some t ↔
    t.kind.IsForm kind ∧ (∃ s, value = .string s ∧ Says s t.value.toList) ∧
      IsLine t.line line := by
  rw [← Kind.ofJson?_eq_some_iff, ← text?_eq_some_iff, ← line?_eq_some_iff]
  cases t
  simp [ofParts?, Option.bind_eq_some_iff]

/-! ## Members -/

variable {members : List (List Char × Json)} {named : List (String × Json)} {name : String}
  {value : Json}

/-- Members have their names read one after the other. -/
theorem named?_cons_eq_some_iff {m : List Char × Json} : named? (m :: members) = some named ↔
    ∃ name, Says m.1 (String.toList name) ∧
      ∃ rest, named? members = some rest ∧ named = (name, m.2) :: rest := by
  rw [named?, List.mapM_cons, ← named?]
  simp only [Option.bind_eq_bind, Option.bind_eq_some_iff, Option.map_eq_some_iff,
    text?_string_eq_some_iff, Option.pure_def, Option.some.injEq]
  constructor
  · rintro ⟨-, ⟨name, hspell, rfl⟩, rest, hrest, rfl⟩
    exact ⟨name, hspell, rest, hrest, rfl⟩
  · rintro ⟨name, hspell, rest, hrest, rfl⟩
    exact ⟨_, ⟨name, hspell, rfl⟩, rest, hrest, rfl⟩

/-- The names of an object are read just if every one of them says something. -/
theorem exists_named?_iff :
    (∃ named, named? members = some named) ↔ ∀ m ∈ members, ∃ name, Says m.1 name := by
  induction members with
  | nil => simp [named?]
  | cons m members ih =>
    simp only [named?_cons_eq_some_iff, List.forall_mem_cons, ← ih]
    constructor
    · rintro ⟨-, name, hspell, rest, hrest, -⟩
      exact ⟨⟨_, hspell⟩, rest, hrest⟩
    · rintro ⟨⟨name, hspell⟩, rest, hrest⟩
      exact ⟨_, String.ofList name, by simpa using hspell, rest, hrest, rfl⟩

/-- The members with a name are found before their names are read as after. -/
theorem filter_named? (h : named? members = some named) : named.filter (·.1 == name) =
    (members.filter fun m => Json.text? (.string m.1) == some name).map fun m => (name, m.2) := by
  induction members generalizing named with
  | nil =>
    cases h
    rfl
  | cons m members ih =>
    obtain ⟨n, hspell, rest, hrest, rfl⟩ := named?_cons_eq_some_iff.1 h
    have htext : Json.text? (.string m.1) = some n := text?_string_eq_some_iff.2 hspell
    by_cases hname : n = name
    · subst hname
      simp [htext, ih hrest]
    · simp [htext, ih hrest, hname]

/-- Among members whose names say something, a name has a value just if it comes once and with this
value. -/
theorem member?_eq_some_iff (h : named? members = some named) :
    member? name named = some value ↔ HasMember name value members := by
  have hfilter : member? name named = some value ↔
      ∃ s, (members.filter fun m => Json.text? (.string m.1) == some name) = [(s, value)] := by
    rw [member?, filter_named? h]
    rcases members.filter _ with _ | ⟨⟨s, v⟩, _ | ⟨m', ms⟩⟩
    all_goals simp
  rw [hfilter, HasMember]
  simp only [List.filter_eq_cons_iff, List.filter_eq_nil_iff, beq_iff_eq, text?_string_eq_some_iff,
    List.forall_mem_append]
  constructor
  · rintro ⟨s, front, back, heq, hfront, hspell, hback⟩
    exact ⟨front, s, back, heq, hspell, hfront, hback⟩
  · rintro ⟨front, s, back, heq, hspell, hfront, hback⟩
    exact ⟨s, front, back, heq, hfront, hspell, hback⟩

/-! ## Tokens -/

/-- The trees that are read as a token are its forms. -/
theorem ofJson?_eq_some_iff : ofJson? j = some t ↔ t.IsForm j := by
  constructor
  · intro h
    unfold ofJson? at h
    split at h
    · obtain ⟨hkind, ⟨s, rfl, hvalue⟩, hline⟩ := ofParts?_eq_some_iff.1 h
      exact .array hkind hvalue hline
    · obtain ⟨named, hnamed, h⟩ := Option.bind_eq_some_iff.1 h
      obtain ⟨kind, hkind, h⟩ := Option.bind_eq_some_iff.1 h
      obtain ⟨value, hvalue, h⟩ := Option.bind_eq_some_iff.1 h
      obtain ⟨line, hline, h⟩ := Option.bind_eq_some_iff.1 h
      rw [member?_eq_some_iff hnamed] at hkind hvalue hline
      obtain ⟨kind_form, ⟨s, rfl, value_form⟩, line_form⟩ := ofParts?_eq_some_iff.1 h
      exact .object (exists_named?_iff.1 ⟨named, hnamed⟩) hkind hvalue hline kind_form value_form
        line_form
    · cases h
  · intro h
    cases h with
    | array hkind hvalue hline =>
      exact ofParts?_eq_some_iff.2 ⟨hkind, ⟨_, rfl, hvalue⟩, hline⟩
    | object hnames hkind hvalue hline kind_form value_form line_form =>
      obtain ⟨named, hnamed⟩ := exists_named?_iff.2 hnames
      rw [← member?_eq_some_iff hnamed] at hkind hvalue hline
      have hparts := ofParts?_eq_some_iff.2 ⟨kind_form, ⟨_, rfl, value_form⟩, line_form⟩
      simp [ofJson?, hnamed, hkind, hvalue, hline, hparts]

/-- The texts that are read as a token. -/
theorem parse?_eq_some_iff {text : String} : parse? text = some t ↔
    ∃ j, Json.IsText j text.toList ∧ t.IsForm j := by
  simp only [parse?, Option.bind_eq_some_iff, Json.parse?_eq_some_iff, ofJson?_eq_some_iff]

/-! ## Tokens that were written -/

/-- A token is written in the grammar of JSON, whatever its text. -/
theorem isSpelled_toJson (t : Token) : IsSpelled t.toJson := by
  refine isSpelled_ofMembers ?_
  simp [isSpelled_ofText, isSpelled_ofNat]

theorem isSpelled_listToJson (ts : List Token) : IsSpelled (listToJson ts) := by
  refine .array fun item hitem => ?_
  obtain ⟨t, -, rfl⟩ := List.mem_map.1 hitem
  exact isSpelled_toJson t

theorem ofParts?_toJson (t : Token) :
    ofParts? (.ofText t.kind.name) (.ofText t.value) (.ofNat t.line.toNat) = some t :=
  ofParts?_eq_some_iff.2 ⟨.name (says_escape t.kind.name), ⟨_, rfl, says_escape t.value⟩,
    line?_eq_some_iff.1 (by simp [line?, nat?_ofNat, Option.filter_some, t.line.toNat_lt_size])⟩

/-- The tree of a token is read as the token. -/
theorem ofJson?_toJson (t : Token) : ofJson? t.toJson = some t := by
  have hname (name : String) : Json.text? (.string (escape name)) = some name := text?_ofText name
  have hparts := ofParts?_toJson t
  simp [toJson, ofMembers, ofJson?, named?, member?, hname, hparts]

theorem listOfJson?_listToJson (ts : List Token) : listOfJson? (listToJson ts) = some ts := by
  have hread : ofJson? ∘ toJson = fun t => pure t := funext ofJson?_toJson
  rw [listToJson, listOfJson?, List.mapM_map, hread, List.mapM_pure, List.map_id']
  rfl

/-- Tokens are read back from what is written of them, alone and in a list, and what is read from
any form of a token is written and read as the same token. -/
theorem json_round_trip :
    (∀ t : Token, parse? (t.toJson.write false) = some t) ∧
    (∀ ts : List Token,
      (Json.parse? ((listToJson ts).write false)).bind listOfJson? = some ts) ∧
    (∀ text t, parse? text = some t ↔ ∃ j, Json.IsText j text.toList ∧ t.IsForm j) ∧
    ∀ text t, parse? text = some t → parse? (t.toJson.write false) = some t := by
  have hwritten (t : Token) : parse? (t.toJson.write false) = some t := by
    rw [parse?, (isSpelled_toJson t).parse?_write, Option.bind_some, ofJson?_toJson]
  refine ⟨hwritten, fun ts => ?_, fun text t => parse?_eq_some_iff, fun _ t _ => hwritten t⟩
  rw [(isSpelled_listToJson ts).parse?_write, Option.bind_some, listOfJson?_listToJson]

theorem json_round_trip_reordered :
    let text := "\x7b\"line\": 3, \"x\": [\x7b\"value\": null\x7d], " ++
      "\"kind\": \x7b\"OPER\\u0041TOR\": null\x7d, \"value\": \"\\ud83d\\ude00\\n\\/\"\x7d"
    let t : Token := ⟨.operator, "😀\n/", 3⟩
    parse? text = some t ∧ parse? (t.toJson.write false) = some t := by
  have htext : parse? ("\x7b\"line\": 3, \"x\": [\x7b\"value\": null\x7d], " ++
      "\"kind\": \x7b\"OPER\\u0041TOR\": null\x7d, \"value\": \"\\ud83d\\ude00\\n\\/\"\x7d") =
        some ⟨.operator, "😀\n/", 3⟩ := by decide +kernel
  exact ⟨htext, json_round_trip.2.2.2 _ _ htext⟩

end Token

end ScalaLex
