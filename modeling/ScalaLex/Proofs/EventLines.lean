import ScalaLex.CommandLine.Run
import ScalaLex.Log.Service
import ScalaLex.Proofs.DecimalDigits
import ScalaLex.Proofs.Listing

/-!
# Lines of the log

An event for people is its texts with brackets, digits and separators around them, none of which
ends a line. So the line ends of what is shown are those of the texts that the event carries, in
their order (`Event.lineEnds_text`).

The console puts a line feed behind each event, and nothing tells this one from a line feed within
an event. The log has one line per event just if no text of an event has a line feed, and one line
more for each that there is (`console_lines`). Texts come from outside : a file can have a name
that is shown as two events (`file_name_shown_as_event`).
-/

namespace ScalaLex

/-! ## Line ends of a text -/

namespace Text

/-- A character that some reader of texts takes for the end of a line. -/
def isLineEnd (c : Char) : Bool :=
  c == '\n' || c == '\r' || c == '\x0b' || c == '\x0c' || c == '\u0085' || c == '\u2028' ||
    c == '\u2029'

/-- The line ends of a text, in order. -/
def lineEnds (text : String) : List Char := text.toList.filter isLineEnd

@[simp] theorem lineEnds_append (first second : String) :
    lineEnds (first ++ second) = lineEnds first ++ lineEnds second := by
  simp [lineEnds]

/-- A text that is checked to have no line end has none. -/
theorem lineEnds_fixed {text : String} (h : text.toList.all (!isLineEnd ·) = true) :
    lineEnds text = [] := by
  simpa [lineEnds] using h

/-- A separator without line ends adds none. -/
theorem lineEnds_intercalate {separator : String} (h : lineEnds separator = [])
    (texts : List String) :
    lineEnds (String.intercalate separator texts) = texts.flatMap lineEnds := by
  cases texts with
  | nil => rfl
  | cons text texts =>
    induction texts generalizing text with
    | nil => simp
    | cons next texts ih =>
      rw [String.intercalate_cons_cons, lineEnds_append, lineEnds_append, h, ih]
      simp

theorem lineEnds_toString (n : UInt32) : lineEnds (toString n) = [] := by
  rw [lineEnds, Natural.toList_toString, List.filter_eq_nil_iff]
  intro d hd hend
  have hdigit := (Natural.isCount_toDigits n.toNat).isDigit d hd
  simp only [isLineEnd, Bool.or_eq_true, beq_iff_eq] at hend
  rcases hend with (((((rfl | rfl) | rfl) | rfl) | rfl) | rfl) | rfl <;> cases hdigit

/-- The line feeds are among the line ends. -/
theorem count_lineEnds (text : String) : (lineEnds text).count '\n' = text.toList.count '\n' :=
  List.count_filter rfl

end Text

/-! ## Line ends of an event -/

namespace Event

/-- The texts that an event carries, in the order in which they are shown. -/
def fields (e : Event) : List String :=
  e.code.text :: e.message :: (e.file?.toList ++ e.context.flatMap fun p => [p.1, p.2])

/-- The place of an event has the line ends of the file that it names. -/
theorem lineEnds_place (e : Event) :
    Text.lineEnds e.place = e.file?.toList.flatMap Text.lineEnds := by
  rw [place]
  split <;> rename_i hfile _
  all_goals simp (disch := decide) [hfile, Text.lineEnds_fixed, Text.lineEnds_toString]

/-- All line ends of a text of an event come from its fields. -/
theorem lineEnds_text (e : Event) : Text.lineEnds e.text = e.fields.flatMap Text.lineEnds := by
  have hlevel : Text.lineEnds e.level.name = [] := by cases e.level <;> decide
  have hequals : Text.lineEnds "=" = [] := by decide
  have hpairs : Text.lineEnds (String.intercalate ", " (e.context.map fun p => p.1 ++ "=" ++ p.2)) =
      (e.context.flatMap fun p => [p.1, p.2]).flatMap Text.lineEnds := by
    rw [Text.lineEnds_intercalate (by decide), List.flatMap_assoc, List.flatMap_map]
    simp [hequals]
  by_cases hempty : e.context = []
  · simp (disch := decide) [text, fields, hempty, hlevel, lineEnds_place, Text.lineEnds_fixed]
  · simp (disch := decide) [text, fields, hempty, hlevel, hpairs, lineEnds_place,
      Text.lineEnds_fixed]

/-- A text of an event has as many line feeds as its fields. -/
theorem count_text (e : Event) :
    e.text.toList.count '\n' = (e.fields.map fun field => field.toList.count '\n').sum := by
  rw [← Text.count_lineEnds, lineEnds_text, List.count_flatMap]
  simp [Function.comp_def, Text.count_lineEnds]

/-- A text of an event is one line unless a line feed is in one of its fields. -/
theorem lf_mem_text_iff (e : Event) :
    '\n' ∈ e.text.toList ↔ ∃ field ∈ e.fields, '\n' ∈ field.toList := by
  have hmem (text : String) : '\n' ∈ text.toList ↔ '\n' ∈ Text.lineEnds text := by
    simp [Text.lineEnds, Text.isLineEnd]
  rw [hmem, lineEnds_text, List.mem_flatMap]
  simp only [hmem]

end Event

/-! ## Texts one per line -/

namespace Text

/-- A text has one line more than line feeds. -/
theorem length_lines (text : String) : (lines text).length = text.toList.count '\n' + 1 := by
  rw [lines, List.length_map]
  induction text.toList with
  | nil => rfl
  | cons c cs ih =>
    rw [List.splitOn_cons_eq_if_modifyHead]
    by_cases hc : c = '\n'
    · simp [hc, ih]
    · simp [hc, ih]

theorem count_join (texts : List String) :
    (String.join (texts.map (· ++ "\n"))).toList.count '\n' =
      texts.length + (texts.map fun text => text.toList.count '\n').sum := by
  induction texts with
  | nil => rfl
  | cons text texts ih =>
    rw [toList_join_cons, List.count_append, List.count_cons_self, ih, List.length_cons,
      List.map_cons, List.sum_cons]
    omega

/-- Texts that were written one per line are its lines just if none of them has a line feed. -/
theorem lines_join_iff {texts : List String} :
    lines (String.join (texts.map (· ++ "\n"))) = texts ++ [""] ↔
      ∀ text ∈ texts, '\n' ∉ text.toList := by
  refine ⟨fun h => ?_, lines_join⟩
  have hlength := congrArg List.length h
  rw [length_lines, count_join, List.length_append, List.length_singleton] at hlength
  have hsum : (texts.map fun text => text.toList.count '\n').sum = 0 := by omega
  intro text htext
  exact List.count_eq_zero.1 (List.sum_eq_zero_iff.1 hsum _ (List.mem_map_of_mem htext))

end Text

/-! ## The console -/

/-- A log on the console is made of the texts of the events that get through. -/
theorem lines_console (limit : Level) (includesFile : Bool) (time : Instant) (log : List Entry) :
    (⟨.console, limit, includesFile⟩ : Service).lines time log =
      ((⟨.console, limit, includesFile⟩ : Service).accepted log).map Event.text :=
  congrFun (List.filterMap_eq_map (f := Event.text)) _

/-- The line ends of an event for people are those of the texts that it carries, so it is one line
just if no text of it has one. The console writes a line for each event and one more for each line
feed in a text of an event, so its lines are the events just if there is no such line feed. -/
theorem console_lines (e : Event) (limit : Level) (includesFile : Bool) (time : Instant)
    (log : List Entry) :
    let s : Service := ⟨.console, limit, includesFile⟩
    let events := s.accepted log
    let written := CommandLine.unlines (s.lines time log)
    Text.lineEnds e.text = e.fields.flatMap Text.lineEnds ∧
    (Text.lineEnds e.text = [] ↔ ∀ field ∈ e.fields, Text.lineEnds field = []) ∧
    (Text.lines written).length = events.length +
      ((events.flatMap Event.fields).map fun field => field.toList.count '\n').sum + 1 ∧
    (Text.lines written = events.map Event.text ++ [""] ↔
      ∀ e ∈ events, ∀ field ∈ e.fields, '\n' ∉ field.toList) := by
  intro s events written
  have hwritten : written = String.join ((events.map Event.text).map (· ++ "\n")) :=
    congrArg CommandLine.unlines (lines_console limit includesFile time log)
  refine ⟨e.lineEnds_text, ?_, ?_, ?_⟩
  · rw [e.lineEnds_text, List.flatMap_eq_nil_iff]
  · rw [Text.length_lines, hwritten, Text.count_join, List.length_map, List.map_map]
    simp [Function.comp_def, Event.count_text, List.flatMap_def, List.sum_flatten]
  · rw [hwritten, Text.lines_join_iff]
    simp [Event.lf_mem_text_iff]

/-- A warning about a file that has a line feed in its name is written as a warning about one file
and an error in another, which nobody gave out. -/
theorem file_name_shown_as_event :
    let warning : Event := .warningWithCode .unterminatedString
      "Input ended inside an unterminated construct"
    let error : Event := .error .internalError "Internal tokenizer error"
    let file := "A.scala:1)\n[ERROR] ERR001 - Internal tokenizer error (B.scala"
    let s : Service := ⟨.console, .warning, true⟩
    let time : Instant := ⟨0, 0⟩
    '\n' ∈ ((warning.withFile file).withLine 1).text.toList ∧
    CommandLine.unlines (s.lines time [⟨some file, warning.withLine 1⟩]) =
      CommandLine.unlines (s.lines time
        [⟨some "A.scala", warning.withLine 1⟩, ⟨some "B.scala", error.withLine 1⟩]) := by
  decide +kernel

end ScalaLex
