import ScalaLex.CommandLine.Options

/-!
# Arguments that are joined

Arguments are read from left to right, an option with its value at a time. What an option does is
the same on whatever options it is read onto : it adds a choice to them (`Options.Choose`), or it is
refused (`Options.Refuse`), or its value is missing. A list of arguments does one of the three as a
whole (`Options.reading`), and only in the last case does it matter what stands behind it, as the
next argument is then the value, whatever it looks like.

So arguments compose (`Options.parse_joined_arguments`) : of two lists that are joined the later one
wins, options that choose different values may change places, and an argument that is neither an
option nor the value of one changes nothing.
-/

namespace ScalaLex

/-- The error is that there is no argument left for a value. -/
def OptionError.isMissing : OptionError → Bool
  | threadsMissing | configMissing | levelMissing => true
  | threadsInvalid _ | levelUnknown _ => false

namespace Options

/-- The options together with later ones : a switch is on if either turns it on, and of a value
the later choice counts. -/
def updatedBy (o later : Options) : Options where
  json := o.json || later.json
  pretty := o.pretty || later.pretty
  counts := o.counts || later.counts
  recursive? := later.recursive?.or o.recursive?
  threads? := later.threads?.or o.threads?
  failFast := o.failFast || later.failFast
  configFile? := later.configFile?.or o.configFile?
  logJson := o.logJson || later.logJson
  logLevel? := later.logLevel?.or o.logLevel?
  quiet := o.quiet || later.quiet

/-- No value is chosen by both. -/
structure AreApart (o o' : Options) : Prop where
  recursive : o.recursive? = none ∨ o'.recursive? = none
  threads : o.threads? = none ∨ o'.threads? = none
  configFile : o.configFile? = none ∨ o'.configFile? = none
  logLevel : o.logLevel? = none ∨ o'.logLevel? = none

/-- The names of the options. -/
def names : List String :=
  ["--json", "--pretty", "--counts", "--recursive", "--no-recursive", "--threads", "--fail-fast",
    "--config", "--log-json", "--log-level", "--quiet"]

/-- The next argument is taken as the value of the option that these end with. -/
def AwaitsValue (args : List String) : Prop :=
  ∃ e, (parse args).2 = .error e ∧ e.isMissing = true

/-- The arguments add a choice to any options, and some of them are passed over. -/
def Choose (args unknown : List String) (choice : Options) : Prop :=
  ∀ (o : Options) (behind : List String), o.parseOnto (args ++ behind) =
    (unknown ++ ((o.updatedBy choice).parseOnto behind).1,
      ((o.updatedBy choice).parseOnto behind).2)

/-- The arguments are refused, whatever stands behind them. -/
def Refuse (args unknown : List String) (e : OptionError) : Prop :=
  ∀ (o : Options) (behind : List String), o.parseOnto (args ++ behind) = (unknown, .error e)

/-- How arguments are read. -/
inductive Reading (args : List String) : Prop
  | chosen {unknown : List String} {choice : Options} (h : Choose args unknown choice)
  | refused {unknown : List String} {e : OptionError} (value : e.isMissing = false)
      (h : Refuse args unknown e)
  | awaiting {unknown : List String} {e : OptionError} (value : e.isMissing = true)
      (h : ∀ o : Options, o.parseOnto args = (unknown, .error e))

variable {o o' choice choice' : Options} {e : OptionError} {arg value : String}
  {args front unknown unknown' a p q q' : List String}

/-! ## Options and later ones -/

@[simp] theorem empty_updatedBy (o : Options) : updatedBy {} o = o := by
  simp [updatedBy]

@[simp] theorem updatedBy_empty (o : Options) : o.updatedBy {} = o := by
  simp [updatedBy]

/-- Options may be put together in any grouping. -/
theorem updatedBy_assoc (o o' o'' : Options) :
    (o.updatedBy o').updatedBy o'' = o.updatedBy (o'.updatedBy o'') := by
  simp [updatedBy, Bool.or_assoc, Option.or_assoc]

/-- Of options that choose different values either may be the later ones. -/
theorem updatedBy_comm (h : AreApart o o') : o.updatedBy o' = o'.updatedBy o := by
  have hor {α : Type} {x y : Option α} (hxy : x = none ∨ y = none) : y.or x = x.or y := by
    rcases hxy with rfl | rfl <;> simp
  simp only [updatedBy, hor h.recursive, hor h.threads, hor h.configFile, hor h.logLevel,
    Bool.or_comm]

/-! ## One option -/

/-- A switch does to any options what it does to the default ones. -/
theorem switch?_eq_map (o : Options) (arg : String) :
    o.switch? arg = (switch? {} arg).map o.updatedBy := by
  unfold switch?
  split <;> simp [updatedBy]

theorem withThreads_eq_map (o : Options) (value : String) :
    o.withThreads value = (withThreads {} value).map o.updatedBy := by
  unfold withThreads
  split <;> simp [updatedBy, Except.map]

theorem withLevel_eq_map (o : Options) (value : String) :
    o.withLevel value = (withLevel {} value).map o.updatedBy := by
  unfold withLevel
  split <;> simp [updatedBy, Except.map]

/-- A value that is refused was not missing. -/
theorem isMissing_of_withThreads (h : withThreads o value = .error e) : e.isMissing = false := by
  unfold withThreads at h
  split at h <;> cases h
  rfl

theorem isMissing_of_withLevel (h : withLevel o value = .error e) : e.isMissing = false := by
  unfold withLevel at h
  split at h <;> cases h
  rfl

theorem choose_nil : Choose [] [] {} := by
  intro o behind
  rw [updatedBy_empty]
  rfl

/-- A switch chooses by itself. -/
theorem choose_switch (h : switch? {} arg = some choice) : Choose [arg] [] choice := by
  intro o behind
  have hswitch := switch?_eq_map o arg
  rw [h] at hswitch
  rw [List.singleton_append, parseOnto, hswitch]
  · rfl
  all_goals
    rintro rfl
    cases h

/-- An unknown argument chooses nothing and is told of. -/
theorem choose_unknown (h : arg ∉ names) : Choose [arg] [arg] {} := by
  intro o behind
  simp only [names, List.mem_cons, not_or] at h
  have hswitch : o.switch? arg = none := by
    unfold switch?
    split <;> simp_all
  rw [List.singleton_append, parseOnto, hswitch, updatedBy_empty]
  · rfl
  all_goals simp [h]

/-- An option with its value chooses or is refused, whatever stands behind it. -/
def TakesValue (name : String) : Prop :=
  ∀ value, (∃ choice, Choose [name, value] [] choice) ∨
    ∃ e, e.isMissing = false ∧ Refuse [name, value] [] e

theorem takesValue_threads : TakesValue "--threads" := by
  intro value
  cases hvalue : withThreads {} value with
  | ok choice =>
    refine Or.inl ⟨choice, fun o behind => ?_⟩
    simp [parseOnto, withThreads_eq_map o, hvalue, Except.map]
  | error e =>
    refine Or.inr ⟨e, isMissing_of_withThreads hvalue, fun o behind => ?_⟩
    simp [parseOnto, withThreads_eq_map o, hvalue, Except.map]

theorem takesValue_config : TakesValue "--config" := by
  refine fun value => Or.inl ⟨{ configFile? := some value }, fun o behind => ?_⟩
  simp [parseOnto, updatedBy]

theorem takesValue_level : TakesValue "--log-level" := by
  intro value
  cases hvalue : withLevel {} value with
  | ok choice =>
    refine Or.inl ⟨choice, fun o behind => ?_⟩
    simp [parseOnto, withLevel_eq_map o, hvalue, Except.map]
  | error e =>
    refine Or.inr ⟨e, isMissing_of_withLevel hvalue, fun o behind => ?_⟩
    simp [parseOnto, withLevel_eq_map o, hvalue, Except.map]

/-! ## Lists of arguments -/

/-- Arguments that choose may be joined : the later choice counts. -/
theorem Choose.append (h : Choose front unknown choice) (h' : Choose args unknown' choice') :
    Choose (front ++ args) (unknown ++ unknown') (choice.updatedBy choice') := by
  intro o behind
  rw [List.append_assoc, h, h', updatedBy_assoc, List.append_assoc]

/-- Arguments behind others that choose are read as they are alone. -/
theorem Choose.reading (h : Choose front unknown choice) (hargs : Reading args) :
    Reading (front ++ args) := by
  cases hargs with
  | chosen h' => exact .chosen (h.append h')
  | @refused unknown' e value h' =>
    have hrefuse : Refuse (front ++ args) (unknown ++ unknown') e := fun o behind => by
      rw [List.append_assoc, h, h']
    exact .refused value hrefuse
  | @awaiting unknown' e value h' =>
    have hawait (o : Options) : o.parseOnto (front ++ args) = (unknown ++ unknown', .error e) := by
      rw [h, h']
    exact .awaiting value hawait

/-- What comes behind a refused argument is not looked at. -/
theorem Refuse.append (h : Refuse front unknown e) (args : List String) :
    Refuse (front ++ args) unknown e := by
  intro o behind
  rw [List.append_assoc]
  exact h o (args ++ behind)

/-- An option that takes a value is refused as the last argument only, or by its value. -/
theorem TakesValue.reading (h : TakesValue arg) (he : e.isMissing = true)
    (hmissing : ∀ o : Options, o.parseOnto [arg] = ([], .error e))
    (hrest : ∀ value rest, args = value :: rest → Reading rest) : Reading (arg :: args) := by
  cases args with
  | nil => exact .awaiting he hmissing
  | cons value rest =>
    rcases h value with ⟨choice, hchoose⟩ | ⟨e, he, hrefuse⟩
    · exact hchoose.reading (hrest value rest rfl)
    · exact .refused he (hrefuse.append rest)

/-- A known argument is a switch or takes a value. -/
theorem switch?_or_takesValue (h : arg ∈ names) :
    (∃ choice, switch? {} arg = some choice) ∨ arg = "--threads" ∨ arg = "--config" ∨
      arg = "--log-level" := by
  simp only [names, List.mem_cons, List.not_mem_nil, or_false] at h
  rcases h with rfl | rfl | rfl | rfl | rfl | rfl | rfl | rfl | rfl | rfl | rfl <;> simp [switch?]

/-- Arguments choose, or they are refused, or a value is missing at their end. -/
theorem reading : ∀ args : List String, Reading args
  | [] => .chosen choose_nil
  | arg :: rest => by
    have hrest : ∀ value rest', rest = value :: rest' → Reading rest' := fun _ rest' h => by
      subst h
      exact reading rest'
    by_cases hmem : arg ∈ names
    · rcases switch?_or_takesValue hmem with ⟨choice, hswitch⟩ | rfl | rfl | rfl
      · exact (choose_switch hswitch).reading (reading rest)
      · exact takesValue_threads.reading rfl (fun _ => rfl) hrest
      · exact takesValue_config.reading rfl (fun _ => rfl) hrest
      · exact takesValue_level.reading rfl (fun _ => rfl) hrest
    · exact (choose_unknown hmem).reading (reading rest)

/-- What arguments choose is put onto the options that they are read onto. -/
theorem parseOnto_eq (o : Options) (args : List String) :
    o.parseOnto args = ((parse args).1, (parse args).2.map o.updatedBy) := by
  cases reading args with
  | @chosen unknown choice h =>
    have honto (o : Options) : o.parseOnto args = (unknown, .ok (o.updatedBy choice)) := by
      simpa [parseOnto] using h o []
    rw [parse, honto, honto, empty_updatedBy]
    rfl
  | refused value h =>
    rw [← List.append_nil args, parse, h, h]
    rfl
  | awaiting value h =>
    rw [parse, h, h]
    rfl

/-- Arguments behind others are read onto what those chose. -/
theorem parse_append_of_ok (h : (parse a).2 = .ok o) (b : List String) :
    parse (a ++ b) = ((parse a).1 ++ (parse b).1, (parse b).2.map o.updatedBy) := by
  cases reading a with
  | @chosen unknown choice hchoose =>
    have ha : parse a = (unknown, .ok choice) := by
      rw [parse]
      simpa [parseOnto] using hchoose {} []
    rw [ha] at h
    cases h
    rw [ha, parse, hchoose, empty_updatedBy, parseOnto_eq]
  | refused value hrefuse =>
    rw [← List.append_nil a, parse, hrefuse] at h
    cases h
  | awaiting value hawait =>
    rw [parse, hawait] at h
    cases h

/-- Arguments that choose the same may take each other's place where no value is awaited. -/
theorem parse_append_congr (h : ¬AwaitsValue p) (hq : (parse q).2 = (parse q').2) :
    (parse (p ++ q)).2 = (parse (p ++ q')).2 := by
  cases reading p with
  | chosen hchoose =>
    rw [parse, hchoose, parse, hchoose, parseOnto_eq, parseOnto_eq _ q', hq]
  | refused value hrefuse => rw [parse, hrefuse, parse, hrefuse]
  | awaiting value hawait => exact absurd ⟨_, by rw [parse, hawait], value⟩ h

/-! ## Composition -/

/-- Arguments behind others that are read are read as they are alone, and their choices are the
later ones : a switch is on if either list turns it on, and a value is the one of the second list if
it has one. Lists that choose different values may change places, and an argument that is no option
may be left out, where no value is awaited. -/
theorem parse_joined_arguments :
    (∀ a b o, (parse a).2 = .ok o →
      ((∃ r, (parse (a ++ b)).2 = .ok r) ↔ ∃ o', (parse b).2 = .ok o') ∧
      (∀ o', (parse b).2 = .ok o' → (parse (a ++ b)).2 = .ok (o.updatedBy o')) ∧
      ∀ e, (parse b).2 = .error e → (parse (a ++ b)).2 = .error e) ∧
    (∀ a b o o', (parse a).2 = .ok o → (parse b).2 = .ok o' → AreApart o o' →
      ∀ p q, ¬AwaitsValue p → (parse (p ++ (a ++ (b ++ q)))).2 = (parse (p ++ (b ++ (a ++ q)))).2) ∧
    ∀ arg, arg ∉ names → ∀ p q, ¬AwaitsValue p →
      (parse (p ++ arg :: q)).2 = (parse (p ++ q)).2 := by
  refine ⟨fun a b o ha => ?_, fun a b o o' ha hb happart p q hp => ?_, fun arg harg p q hp => ?_⟩
  · rw [parse_append_of_ok ha b]
    cases (parse b).2 with
    | ok o' => simp [Except.map]
    | error e => simp [Except.map]
  · refine parse_append_congr hp ?_
    rw [parse_append_of_ok ha, parse_append_of_ok hb, parse_append_of_ok hb, parse_append_of_ok ha]
    cases (parse q).2 with
    | ok r =>
      simp only [Except.map, ← updatedBy_assoc, updatedBy_comm happart]
    | error e => rfl
  · refine parse_append_congr hp ?_
    have hresult := congrArg Prod.snd (choose_unknown harg {} q)
    rw [updatedBy_empty] at hresult
    exact hresult

theorem parse_joined_arguments_option_as_value :
    (parse ["--config", "--json", "--threads", "2"]).2 =
        .ok { configFile? := some "--json", threads? := some 2 } ∧
      (parse ["--threads", "4", "--pretty"]).2 = .ok { threads? := some 4, pretty := true } ∧
      (parse ["--log-level"]).2 = .error .levelMissing ∧
      (parse ["--config", "--json", "--threads", "2", "--threads", "4", "--pretty"]).2 =
        .ok { configFile? := some "--json", threads? := some 4, pretty := true } ∧
      (parse ["--config", "--json", "--threads", "2", "--log-level"]).2 = .error .levelMissing ∧
      (parse ["--quiet", "--json", "--log-level", "info", "--threads", "many"]).2 =
        (parse ["--quiet", "--log-level", "info", "--json", "--threads", "many"]).2 ∧
      (parse ["--quiet", "--threads=4", "--json"]).2 = (parse ["--quiet", "--json"]).2 := by
  have hfirst : (parse ["--config", "--json", "--threads", "2"]).2 =
      .ok { configFile? := some "--json", threads? := some 2 } := by rfl
  have hsecond : (parse ["--threads", "4", "--pretty"]).2 =
      .ok { threads? := some 4, pretty := true } := by rfl
  have hmissing : (parse ["--log-level"]).2 = .error .levelMissing := by rfl
  have hjson : (parse ["--json"]).2 = .ok { json := true } := by rfl
  have hlevel : (parse ["--log-level", "info"]).2 = .ok { logLevel? := some .info } := by rfl
  have hquiet : ¬AwaitsValue ["--quiet"] := by
    rintro ⟨e, he, -⟩
    cases he
  have hjoined (b : List String) := parse_joined_arguments.1 _ b _ hfirst
  exact ⟨hfirst, hsecond, hmissing, (hjoined _).2.1 _ hsecond, (hjoined _).2.2 _ hmissing,
    parse_joined_arguments.2.1 _ _ _ _ hjson hlevel ⟨.inl rfl, .inl rfl, .inl rfl, .inl rfl⟩ _
      ["--threads", "many"] hquiet,
    parse_joined_arguments.2.2 _ (by decide) _ ["--json"] hquiet⟩

end Options

end ScalaLex
