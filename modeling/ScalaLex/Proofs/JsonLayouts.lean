import Mathlib.Data.List.Basic
import ScalaLex.Json.Printer

/-!
# Layouts of JSON

An array and an object are written alike : parts with commas between them, in brackets
(`Json.writeAt_array`, `Json.writeAt_object`). A part is an item (`Json.writeItem`) or a member
(`Json.writeMember`) with the white space of the layout in front of it. So what holds of parts in
brackets holds of both, in either layout.
-/

namespace ScalaLex.Json

variable {isPretty : Bool} {level : Nat}

/-- An item with the white space in front of it. -/
def writeItem (isPretty : Bool) (level : Nat) (item : Json) : List Char :=
  lead isPretty level ++ item.writeAt isPretty level

/-- A member with the white space in front of it. -/
def writeMember (isPretty : Bool) (level : Nat) (m : List Char × Json) : List Char :=
  lead isPretty level ++ quote m.1 ++ ':' :: (gap isPretty ++ m.2.writeAt isPretty level)

/-- The characters of a text that was written are those of its tree at the outermost level. -/
theorem toList_write (j : Json) : (j.write isPretty).toList = j.writeAt isPretty 0 :=
  String.toList_ofList

theorem writeItems_eq (items : List Json) :
    writeItems isPretty level items = items.map (writeItem isPretty level) := by
  induction items with
  | nil => rfl
  | cons item items ih => rw [writeItems, ih, List.map_cons, writeItem]

theorem writeMembers_eq (members : List (List Char × Json)) :
    writeMembers isPretty level members = members.map (writeMember isPretty level) := by
  induction members with
  | nil => rfl
  | cons m members ih => rw [writeMembers, ih, List.map_cons, writeMember]

/-- An array is its items in square brackets. -/
theorem writeAt_array (items : List Json) : (array items).writeAt isPretty level =
    enclosed isPretty level '[' ']' (items.map (writeItem isPretty (level + 1))) := by
  rw [writeAt, writeItems_eq]

/-- An object is its members in curly brackets. -/
theorem writeAt_object (members : List (List Char × Json)) :
    (object members).writeAt isPretty level =
      enclosed isPretty level '{' '}' (members.map (writeMember isPretty (level + 1))) := by
  rw [writeAt, writeMembers_eq]

/-- Brackets with a part between them have the layout in front of the closing one. -/
theorem enclosed_cons (opening closing : Char) (part : List Char) (parts : List (List Char)) :
    enclosed isPretty level opening closing (part :: parts) =
      opening :: ([','].intercalate (part :: parts) ++ lead isPretty level ++ [closing]) :=
  rfl

end ScalaLex.Json
