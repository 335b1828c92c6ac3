import ScalaLex.Proofs.WrittenValues

/-!
# Reading documents that were written

A document is written section by section, under bare names and with bare keys. Reading it goes from
one line to the next (`ReadsTo`) : a header adds an empty table (`readsTo_header`) and a line
of a section adds a key to the last table (`readsTo_field`). So the table that is read has the
sections with their fields, in their order (`parse?_writeSections`).

The count of steps that bounds the reading never runs out, as each line takes off a character at
least.
-/

namespace ScalaLex.Toml

open Natural

variable {c : Char} {cs rest : List Char} {key name : String} {d d' : Document}

/-! ## Bare keys -/

/-- A key that is written without quotes. -/
def isBareKey (key : String) : Bool := !key.isEmpty && key.toList.all isBare

theorem exists_of_isBareKey (h : isBareKey key = true) :
    ∃ c tail, key.toList = c :: tail ∧ isBare c = true := by
  rw [isBareKey, Bool.and_eq_true, Bool.not_eq_true'] at h
  cases hkey : key.toList with
  | nil =>
    rw [String.toList_eq_nil_iff.1 hkey] at h
    exact absurd h.1 (by decide)
  | cons c tail =>
    rw [hkey] at h
    exact ⟨c, tail, rfl, by simpa using (List.all_eq_true.1 h.2) c List.mem_cons_self⟩

theorem ne_of_isBare (h : isBare c = true) {q : Char} (hq : isBare q = false) : c ≠ q := by
  rintro rfl
  rw [h] at hq
  cases hq

/-- A bare key ends before the first character that is not of one. -/
theorem part?_bare (h : isBareKey key = true) (hc : isBare c = false) (rest : List Char) :
    part? (key.toList ++ c :: rest) = some (key, c :: rest) := by
  obtain ⟨first, tail, hkey, hfirst⟩ := exists_of_isBareKey h
  have hbare : ∀ a ∈ key.toList, isBare a = true := by
    rw [isBareKey, Bool.and_eq_true] at h
    exact List.all_eq_true.1 h.2
  have hline : line? (key.toList ++ c :: rest) = none := by
    rw [hkey, List.cons_append, line?]
    · exact fun _ heq => ne_of_isBare hfirst (by decide) (List.cons.inj heq).1
    · exact fun _ heq => ne_of_isBare hfirst (by decide) (List.cons.inj heq).1
  have htake : (key.toList ++ c :: rest).takeWhile isBare = key.toList := by
    rw [List.takeWhile_append_of_pos hbare, List.takeWhile_cons_of_neg (by simp [hc]),
      List.append_nil]
  have hdrop : (key.toList ++ c :: rest).dropWhile isBare = c :: rest := by
    rw [List.dropWhile_append_of_pos hbare, List.dropWhile_cons_of_neg (by simp [hc])]
  have hne : key.toList.isEmpty = false := by rw [hkey]; rfl
  simp [part?, hline, htake, hdrop, hne]

theorem skipBlanks_cons (h : (c == ' ' || c == '\t') = false) (rest : List Char) :
    skipBlanks (c :: rest) = c :: rest := by
  rw [skipBlanks, List.dropWhile_cons_of_neg]
  rw [h]
  decide

theorem skipBlanks_bare (h : isBareKey key = true) (rest : List Char) :
    skipBlanks (key.toList ++ rest) = key.toList ++ rest := by
  obtain ⟨first, tail, hkey, hfirst⟩ := exists_of_isBareKey h
  rw [hkey, List.cons_append, skipBlanks_cons]
  simp [ne_of_isBare hfirst (q := ' ') (by decide), ne_of_isBare hfirst (q := '\t') (by decide)]

/-- A bare key is a key of one part. -/
theorem key?_bare (h : isBareKey key = true) {after : List Char} (hafter : after = c :: rest)
    (hc : isBare c = false) {e : Char} {rest' : List Char}
    (hrest : skipBlanks after = e :: rest') (he : e ≠ '.') (steps : Nat) :
    key? (steps + 1) (key.toList ++ after) = some (([], key), e :: rest') := by
  subst hafter
  have hparts : parts? (steps + 1) (key.toList ++ c :: rest) = some ([key], e :: rest') := by
    rw [parts?, skipBlanks_bare h, part?_bare h hc]
    simp [hrest, he]
  rw [key?, hparts]
  rfl

/-! ## Tables -/

theorem alter_append_new {entries : Entries} {change : Option Item → Option Item}
    (h : key ∉ entries.map (·.1)) : Entries.alter key change entries =
      (change none).map fun item => entries ++ [(key, item)] := by
  induction entries with
  | nil => rfl
  | cons e entries ih =>
    obtain ⟨k, item⟩ := e
    rw [List.map_cons, List.mem_cons, not_or] at h
    rw [Entries.alter, if_neg (by simpa using Ne.symm h.1), ih h.2]
    cases change none <;> rfl

theorem alter_append_last {entries : Entries} {change : Option Item → Option Item} {item : Item}
    (h : key ∉ entries.map (·.1)) : Entries.alter key change (entries ++ [(key, item)]) =
      (change (some item)).map fun item => entries ++ [(key, item)] := by
  induction entries with
  | nil => simp [Entries.alter]
  | cons e entries ih =>
    obtain ⟨k, item'⟩ := e
    rw [List.map_cons, List.mem_cons, not_or] at h
    rw [List.cons_append, Entries.alter, if_neg (by simpa using Ne.symm h.1), ih h.2]
    cases change (some item) <;> rfl

/-- The document at a table that comes last. -/
def inTable (before : Entries) (name : String) (done : Entries) : Document :=
  ⟨before ++ [(name, .table .stated done)], [name]⟩

/-- A header of a new name adds a table. -/
theorem state_new (h : name ∉ d.entries.map (·.1)) :
    d.state ([], name) = some (inTable d.entries name []) := by
  simp [Document.state, Entries.state, Entries.within, alter_append_new h, inTable]

/-- A new key of the last table comes last in it. -/
theorem assign_new {before done : Entries} (hname : name ∉ before.map (·.1))
    (hkey : key ∉ done.map (·.1)) (v : Value) : (inTable before name done).assign ([], key) v =
      some (inTable before name (done ++ [(key, .value v)])) := by
  simp [Document.assign, inTable, Entries.within, Entries.assign, Entries.insertNew,
    alter_append_last hname, alter_append_new hkey]

/-! ## Lines -/

/-- With enough steps, reading comes from one place of a text to another. -/
def ReadsTo (d : Document) (cs : List Char) (d' : Document) (rest : List Char) : Prop :=
  ∀ steps, cs.length ≤ steps →
    ∃ steps', rest.length ≤ steps' ∧ lines? (steps + 1) d cs = lines? (steps' + 1) d' rest

theorem ReadsTo.refl (d : Document) (cs : List Char) : ReadsTo d cs d cs :=
  fun steps h => ⟨steps, h, rfl⟩

theorem ReadsTo.trans {d'' : Document} {rest' : List Char} (h : ReadsTo d cs d' rest)
    (h' : ReadsTo d' rest d'' rest') : ReadsTo d cs d'' rest' := by
  intro steps hsteps
  obtain ⟨steps', hsteps', heq⟩ := h steps hsteps
  obtain ⟨steps'', hsteps'', heq'⟩ := h' steps' hsteps'
  exact ⟨steps'', hsteps'', heq.trans heq'⟩

/-- What is read to the end of a text is the document. -/
theorem ReadsTo.lines?_eq (h : ReadsTo d cs d' []) : lines? (cs.length + 1) d cs = some d' := by
  obtain ⟨steps, -, heq⟩ := h cs.length (Nat.le_refl _)
  exact heq

/-- A line takes a step and leaves a shorter text. -/
theorem readsTo_of_line
    (hline : ∀ steps, cs.length ≤ steps + 1 → lines? (steps + 2) d cs = lines? (steps + 1) d' rest)
    (hrest : rest.length < cs.length) : ReadsTo d cs d' rest := by
  intro steps hsteps
  obtain ⟨steps, rfl⟩ := Nat.exists_eq_add_one_of_ne_zero
    (Nat.ne_of_gt (Nat.lt_of_lt_of_le (Nat.zero_lt_of_lt hrest) hsteps))
  exact ⟨steps, Nat.le_of_lt_succ (Nat.lt_of_lt_of_le hrest hsteps), hline steps hsteps⟩

theorem lineEnd?_newline (rest : List Char) : lineEnd? ('\n' :: rest) = some rest := rfl

/-- An empty line is passed over. -/
theorem readsTo_newline (d : Document) (rest : List Char) : ReadsTo d ('\n' :: rest) d rest := by
  refine readsTo_of_line (fun steps _ => ?_) (Nat.lt_succ_self _)
  rw [lines?, skipBlanks_cons (by decide)]
  rfl

/-- What is no blank, comment or line end is a header or a key with its value. -/
theorem readsTo_expression (hc : isBare c = true ∨ c = '[')
    (hread : ∀ steps, (c :: cs).length ≤ steps →
      expression? (steps + 1) d (c :: cs) = some (d', rest))
    (hrest : rest.length ≤ cs.length) : ReadsTo d (c :: cs) d' rest := by
  have hne : ∀ {q : Char}, isBare q = false → q ≠ '[' → c ≠ q := by
    rintro q hq hbracket rfl
    rcases hc with hc | hc
    · rw [hq] at hc
      cases hc
    · exact hbracket hc
  have hspace : c ≠ ' ' := hne (by decide) (by decide)
  have htab : c ≠ '\t' := hne (by decide) (by decide)
  refine readsTo_of_line (fun steps hsteps => ?_) (Nat.lt_succ_of_le hrest)
  rw [lines?, skipBlanks_cons (by simp [hspace, htab])]
  split
  · rename_i heq
    cases heq
  · rename_i heq
    exact absurd (List.cons.inj heq).1 (hne (by decide) (by decide))
  · rename_i heq
    exact absurd (List.cons.inj heq).1 (hne (by decide) (by decide))
  · rename_i heq
    exact absurd (List.cons.inj heq).1 (hne (by decide) (by decide))
  · rw [hread (steps + 1) hsteps]
    rfl

/-- A header with a new name. -/
theorem readsTo_header (hbare : isBareKey name = true) (hname : name ∉ d.entries.map (·.1))
    (rest : List Char) : ReadsTo d ('[' :: (name.toList ++ ']' :: '\n' :: rest))
      (inTable d.entries name []) rest := by
  refine readsTo_expression (Or.inr rfl) (fun steps _ => ?_) (by simp; omega)
  have hkey : key? (steps + 1) (name.toList ++ ']' :: '\n' :: rest) =
      some (([], name), ']' :: '\n' :: rest) :=
    key?_bare hbare rfl (by decide) rfl (by decide) steps
  obtain ⟨c, tail, htail, hc⟩ := exists_of_isBareKey hbare
  have hbracket : c ≠ '[' := ne_of_isBare hc (by decide)
  rw [htail, List.cons_append] at hkey
  rw [htail, List.cons_append, expression?]
  · simp [hkey, state_new hname, lineEnd?_newline]
  · exact fun _ heq => hbracket (List.cons.inj heq).1

theorem exists_writeItems (items : List (List Char)) : ∃ tail, writeItems items = '[' :: tail := by
  cases items with
  | nil => exact ⟨_, rfl⟩
  | cons item items => cases items <;> exact ⟨_, rfl⟩

/-- No blanks stand in front of a field. -/
theorem skipBlanks_write (f : Field) (rest : List Char) :
    skipBlanks (f.write ++ rest) = f.write ++ rest := by
  cases f with
  | boolean b => cases b <;> rfl
  | count n =>
    have hds := isCount_toDigits n
    obtain ⟨d, ds, hcons⟩ := List.exists_cons_of_ne_nil hds.ne_nil
    have hd := hds.isDigit d (by rw [hcons]; exact List.mem_cons_self)
    have hspace : d ≠ ' ' := ne_of_isDigit hd rfl
    have htab : d ≠ '\t' := ne_of_isDigit hd rfl
    rw [Field.write, hcons, List.cons_append, skipBlanks_cons (by simp [hspace, htab])]
  | text s =>
    obtain ⟨tail, htail⟩ | ⟨tail, htail⟩ := exists_writeString s
    all_goals rw [Field.write, htail, List.cons_append, skipBlanks_cons (by decide)]
  | texts ss =>
    obtain ⟨tail, htail⟩ := exists_writeItems (ss.map writeString)
    rw [Field.write, htail, List.cons_append, skipBlanks_cons (by decide)]

/-- A line with a new key. -/
theorem readsTo_field {before done : Entries} {f : Field} (hbare : isBareKey key = true)
    (hwritable : f.isWritable = true) (hname : name ∉ before.map (·.1))
    (hkey : key ∉ done.map (·.1)) (rest : List Char) : ReadsTo (inTable before name done)
      (key.toList ++ ' ' :: '=' :: ' ' :: (f.write ++ '\n' :: rest))
      (inTable before name (done ++ [(key, .value f.toValue)])) rest := by
  obtain ⟨c, tail, htail, hc⟩ := exists_of_isBareKey hbare
  have hbracket : c ≠ '[' := ne_of_isBare hc (by decide)
  rw [htail, List.cons_append]
  refine readsTo_expression (Or.inl hc) (fun steps hsteps => ?_) (by simp; omega)
  have hread : key? (steps + 1) (key.toList ++ ' ' :: '=' :: ' ' :: (f.write ++ '\n' :: rest)) =
      some (([], key), '=' :: ' ' :: (f.write ++ '\n' :: rest)) :=
    key?_bare hbare rfl (by decide) rfl (by decide) steps
  have hequals : keyEquals? (steps + 1) (c :: (tail ++ ' ' :: '=' :: ' ' ::
      (f.write ++ '\n' :: rest))) = some (([], key), ' ' :: (f.write ++ '\n' :: rest)) := by
    rw [htail, List.cons_append] at hread
    simp [keyEquals?, hread]
  have hskip : skipBlanks (' ' :: (f.write ++ '\n' :: rest)) = f.write ++ '\n' :: rest :=
    skipBlanks_write f _
  have hlength : f.write.length ≤ steps := by
    simp at hsteps
    omega
  have hvalue := value?_write f hwritable rest steps hlength
  rw [expression?]
  · simp [hequals, hskip, hvalue, assign_new hname hkey, lineEnd?_newline]
  · exact fun _ heq => hbracket (List.cons.inj heq).1
  · exact fun _ heq => hbracket (List.cons.inj heq).1

/-! ## Sections -/

/-- A bare name with bare keys, none of which comes twice. -/
structure BareNames (name : String) (keys : List String) : Prop where
  bare_name : isBareKey name = true
  bare_keys : ∀ key ∈ keys, isBareKey key = true
  nodup : keys.Nodup

instance (name : String) (keys : List String) : Decidable (BareNames name keys) :=
  decidable_of_iff (isBareKey name = true ∧ (∀ key ∈ keys, isBareKey key = true) ∧ keys.Nodup)
    ⟨fun h => ⟨h.1, h.2.1, h.2.2⟩, fun h => ⟨h.bare_name, h.bare_keys, h.nodup⟩⟩

/-- The keys of a section, in order. -/
def Section.keys (s : Section) : List String := s.fields.map (·.1)

/-- The lines of fields. -/
def fieldLines (fields : List (String × Field)) : List Char :=
  fields.flatMap fun (key, f) => key.toList ++ [' ', '=', ' '] ++ f.write ++ ['\n']

theorem write_eq_fieldLines (s : Section) :
    s.write = '[' :: s.name.toList ++ [']', '\n'] ++ fieldLines s.fields := rfl

theorem fieldLines_cons (key : String) (f : Field) (fields : List (String × Field)) :
    fieldLines ((key, f) :: fields) =
      key.toList ++ ' ' :: '=' :: ' ' :: (f.write ++ '\n' :: fieldLines fields) := by
  simp [fieldLines]

/-- What is read of fields. -/
def itemsOf (fields : List (String × Field)) : Entries :=
  fields.map fun x => (x.1, .value x.2.toValue)

/-- The table that is read of a section. -/
def Section.toItem (s : Section) : String × Item := (s.name, .table .stated (itemsOf s.fields))

theorem map_fst_itemsOf (fields : List (String × Field)) :
    (itemsOf fields).map (·.1) = fields.map (·.1) := by
  rw [itemsOf, List.map_map]
  rfl

/-- The lines of a section add its keys to the last table. -/
theorem readsTo_fields {before : Entries} (hname : name ∉ before.map (·.1))
    (done fields : List (String × Field)) (hkeys : ∀ key ∈ fields.map (·.1), isBareKey key = true)
    (hwritable : ∀ x ∈ fields, x.2.isWritable = true) (hnodup : ((done ++ fields).map (·.1)).Nodup)
    (rest : List Char) : ReadsTo (inTable before name (itemsOf done))
      (fieldLines fields ++ rest) (inTable before name (itemsOf (done ++ fields))) rest := by
  induction fields generalizing done with
  | nil =>
    rw [List.append_nil]
    exact .refl _ _
  | cons x fields ih =>
    obtain ⟨key, f⟩ := x
    obtain ⟨hkey, hkeys⟩ := List.forall_mem_cons.1 hkeys
    obtain ⟨hf, hwritable⟩ := List.forall_mem_cons.1 hwritable
    have hnew : key ∉ (itemsOf done).map (·.1) := by
      rw [map_fst_itemsOf]
      rw [List.map_append, List.map_cons] at hnodup
      exact fun hmem => (List.nodup_append.1 hnodup).2.2 _ hmem _ List.mem_cons_self rfl
    have hsplit : done ++ (key, f) :: fields = done ++ [(key, f)] ++ fields := by
      rw [List.append_assoc, List.singleton_append]
    have hitems : itemsOf (done ++ [(key, f)]) = itemsOf done ++ [(key, .value f.toValue)] := by
      rw [itemsOf, List.map_append]
      rfl
    have hfield := readsTo_field hkey hf hname hnew (fieldLines fields ++ rest)
    rw [hsplit] at hnodup ⊢
    have hfields := ih (done ++ [(key, f)]) hkeys hwritable hnodup
    rw [hitems] at hfields
    simpa [fieldLines_cons] using hfield.trans hfields

/-- A section of a new name adds its table. -/
theorem readsTo_section {s : Section} (hbare : BareNames s.name s.keys)
    (hwritable : s.isWritable = true) (hname : s.name ∉ d.entries.map (·.1)) (rest : List Char) :
    ReadsTo d (s.write ++ rest) ⟨d.entries ++ [s.toItem], [s.name]⟩ rest := by
  have hheader := readsTo_header hbare.bare_name hname (fieldLines s.fields ++ rest)
  have hfields := readsTo_fields hname [] s.fields hbare.bare_keys (List.all_eq_true.1 hwritable)
    hbare.nodup rest
  simpa [write_eq_fieldLines, Section.toItem, inTable] using hheader.trans hfields

/-- Sections of new names add their tables. -/
theorem readsTo_sections (ss : List Section)
    (hs : ∀ s ∈ ss, BareNames s.name s.keys ∧ s.isWritable = true)
    (hnodup : (d.entries.map (·.1) ++ ss.map (·.name)).Nodup) : ∃ header,
      ReadsTo d (writeSections ss) ⟨d.entries ++ ss.map (·.toItem), header⟩ [] := by
  induction ss generalizing d with
  | nil =>
    rw [List.map_nil, List.append_nil]
    exact ⟨_, .refl d []⟩
  | cons s ss ih =>
    obtain ⟨⟨hbare, hwritable⟩, hs⟩ := List.forall_mem_cons.1 hs
    have hnew : s.name ∉ d.entries.map (·.1) := fun hmem =>
      (List.nodup_append.1 hnodup).2.2 _ hmem _ List.mem_cons_self rfl
    cases ss with
    | nil => exact ⟨_, by simpa [writeSections] using readsTo_section hbare hwritable hnew []⟩
    | cons s' ss =>
      have hsection := readsTo_section hbare hwritable hnew ('\n' :: writeSections (s' :: ss))
      obtain ⟨header, hrest⟩ := @ih ⟨d.entries ++ [s.toItem], [s.name]⟩ hs
        (by simpa [Section.toItem] using hnodup)
      refine ⟨header, ?_⟩
      simpa [writeSections] using (hsection.trans (readsTo_newline _ _)).trans hrest

theorem toValues_itemsOf (fields : List (String × Field)) :
    toValues (itemsOf fields) = fields.map fun x => (x.1, x.2.toValue) := by
  induction fields with
  | nil => rfl
  | cons x fields ih =>
    rw [itemsOf, List.map_cons, toValues, Item.toValue, List.map_cons, ← ih]
    rfl

/-- The entry of a document that a section makes. -/
def Section.toEntry (s : Section) : String × Value :=
  (s.name, .table (s.fields.map fun x => (x.1, x.2.toValue)))

theorem toValues_toItem (ss : List Section) :
    toValues (ss.map (·.toItem)) = ss.map (·.toEntry) := by
  induction ss with
  | nil => rfl
  | cons s ss ih =>
    rw [List.map_cons, Section.toItem, toValues, Item.toValue, toValues_itemsOf, ih, List.map_cons]
    rfl

theorem head?_writeSections (ss : List Section) : ∀ c ∈ (writeSections ss).head?, c = '[' := by
  match ss with
  | [] => simp [writeSections]
  | [s] =>
    rintro c ⟨⟩
    rfl
  | s :: s' :: ss =>
    rintro c ⟨⟩
    rfl

/-- Without a mark in front, the lines of a text are all of it. -/
theorem parse?_of_head (h : ∀ c ∈ cs.head?, c ≠ '\uFEFF') : parse? (String.ofList cs) =
    (lines? (cs.length + 1) {} cs).map fun d => toValues d.entries := by
  rw [parse?, String.toList_ofList]
  split
  · exact absurd rfl (h _ rfl)
  · exact Option.map_eq_bind.symm

/-- Sections that were written are read back, with their fields in order. -/
theorem parse?_writeSections (ss : List Section)
    (hs : ∀ s ∈ ss, BareNames s.name s.keys ∧ s.isWritable = true)
    (hnodup : (ss.map (·.name)).Nodup) :
    parse? (String.ofList (writeSections ss)) = some (ss.map (·.toEntry)) := by
  have hmark : ∀ c ∈ (writeSections ss).head?, c ≠ '\uFEFF' := by
    intro c hc
    rw [head?_writeSections ss c hc]
    decide
  obtain ⟨header, hreads⟩ := readsTo_sections (d := {}) ss hs hnodup
  rw [parse?_of_head hmark, hreads.lines?_eq, Option.map_some, List.nil_append, toValues_toItem]

end ScalaLex.Toml
