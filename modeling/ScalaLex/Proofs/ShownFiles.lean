import ScalaLex.CommandLine.Run
import ScalaLex.Proofs.JsonLayouts

/-!
# Files that an output shows

What a program writes about the files of a directory has a part for each file that was read, in
one of three forms (`CommandLine.shownFile`) : its tokens under its path, their counts, or its
report as JSON. No part is left out, whatever the others are (`CommandLine.shows_batchText`). For
reports this holds as JSON is written with all items of an array and all values of an object
between commas (`Json.infix_array`, `Json.infix_object`).
-/

namespace ScalaLex

namespace Json

variable {item value : Json} {items : List Json} {name : List Char}
  {members : List (List Char × Json)}

/-! ## Parts between commas -/

/-- What stands between commas is written. -/
theorem infix_intercalate {part : List Char} {parts : List (List Char)} (h : part ∈ parts) :
    part <:+: [','].intercalate parts := by
  induction parts with
  | nil => cases h
  | cons first rest ih =>
    cases rest with
    | nil => simp_all
    | cons next rest =>
      rw [List.intercalate_cons_cons, List.append_assoc]
      rcases List.mem_cons.1 h with rfl | h
      · exact (List.prefix_append _ _).isInfix
      · exact ((ih h).trans (List.suffix_append _ _).isInfix).trans
          (List.suffix_append _ _).isInfix

/-- What stands between brackets is written. -/
theorem infix_enclosed {isPretty : Bool} {level : Nat} {part : List Char}
    {parts : List (List Char)} (h : part ∈ parts) (opening closing : Char) :
    part <:+: enclosed isPretty level opening closing parts := by
  obtain ⟨first, rest, rfl⟩ := List.exists_cons_of_ne_nil (List.ne_nil_of_mem h)
  rw [enclosed_cons, List.append_assoc]
  exact List.infix_cons ((infix_intercalate h).trans (List.prefix_append _ _).isInfix)

/-- All items of an array are written. -/
theorem infix_array (h : item ∈ items) (isPretty : Bool) (level : Nat) :
    item.writeAt isPretty (level + 1) <:+: (array items).writeAt isPretty level := by
  rw [writeAt_array]
  have hpart : item.writeAt isPretty (level + 1) <:+: item.writeItem isPretty (level + 1) :=
    (List.suffix_append _ _).isInfix
  exact hpart.trans (infix_enclosed (List.mem_map_of_mem h) _ _)

/-- All values of an object are written. -/
theorem infix_object (h : (name, value) ∈ members) (isPretty : Bool) (level : Nat) :
    value.writeAt isPretty (level + 1) <:+: (object members).writeAt isPretty level := by
  rw [writeAt_object]
  have hpart :
      value.writeAt isPretty (level + 1) <:+: writeMember isPretty (level + 1) (name, value) :=
    (List.infix_cons (List.suffix_append _ _).isInfix).trans (List.suffix_append _ _).isInfix
  exact hpart.trans (infix_enclosed (List.mem_map_of_mem h) _ _)

end Json

namespace CommandLine

variable {o : Options} {r : BatchResults} {f : FileTokens}

/-- The part of an output that shows a file. -/
def shownFile (o : Options) (f : FileTokens) : List Char :=
  if o.json then (FileReport.ofFileTokens f).toJson.writeAt o.pretty 2
  else if o.counts then (Counts.text f.path f.scan.counts ++ "\n").toList
  else ("== " ++ f.path ++ " ==\n" ++ Token.listing f.scan.tokens).toList

theorem infix_toList_join {part : String} {parts : List String} (h : part ∈ parts) :
    part.toList <:+: (String.join parts).toList := by
  rw [String.toList_join, List.flatMap_def]
  exact List.infix_of_mem_flatten (List.mem_map_of_mem h)

/-- The output for a directory shows every file that was read. -/
theorem shows_batchText (o : Options) (now : Instant) (h : f ∈ r.files) :
    shownFile o f <:+: (batchText o now r).toList := by
  rw [shownFile, batchText]
  split
  · have hitem : (FileReport.ofFileTokens f).toJson ∈
        (Report.ofBatch now r).files.map FileReport.toJson :=
      List.mem_map_of_mem (List.mem_map_of_mem h)
    have hvalue : (Json.escape "files", Json.array ((Report.ofBatch now r).files.map
        FileReport.toJson)) ∈
          [("generated_at", Json.ofText (Report.ofBatch now r).generatedAt.toText),
          ("tool_version", .ofText toolVersion),
          ("files", .array ((Report.ofBatch now r).files.map FileReport.toJson))].map
            fun m => (Json.escape m.1, m.2) := by
      simp
    have hreport := (Json.infix_array hitem o.pretty 1).trans (Json.infix_object hvalue o.pretty 0)
    rw [Report.text, Json.write, String.toList_append, String.toList_ofList]
    exact hreport.trans (List.prefix_append _ _).isInfix
  split
  · rw [unlines]
    refine infix_toList_join (List.mem_map_of_mem (f := (· ++ "\n")) ?_)
    exact List.mem_append_left _ (List.mem_map_of_mem h)
  · exact infix_toList_join (List.mem_map_of_mem (f := fun f : FileTokens =>
      "== " ++ f.path ++ " ==\n" ++ Token.listing f.scan.tokens) h)

end CommandLine

end ScalaLex
