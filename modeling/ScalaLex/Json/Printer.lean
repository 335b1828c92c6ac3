import ScalaLex.Json.Basic

/-!
# Writing JSON

`Json.write` writes a tree in one of two layouts. The compact one has no white space. The
pretty one puts every item and every member on a line of its own, indented by two spaces a
level; an empty array or object stays on one line. The layouts differ in what stands in
front of an item, a member and a closing bracket (`Json.lead`) and behind a colon
(`Json.gap`), and in nothing else.
-/

namespace ScalaLex.Json

/-- A spelling between its quotes. -/
def quote (spelling : List Char) : List Char := '"' :: spelling ++ ['"']

/-- The white space in front of what stands at a level. -/
def lead (isPretty : Bool) (level : Nat) : List Char :=
  if isPretty then '\n' :: List.replicate (2 * level) ' ' else []

/-- The white space behind a colon. -/
def gap (isPretty : Bool) : List Char := if isPretty then [' '] else []

/-- Parts with commas between them, between brackets that stand at a level. -/
def enclosed (isPretty : Bool) (level : Nat) (opening closing : Char) :
    List (List Char) → List Char
  | [] => [opening, closing]
  | parts => opening :: ([','].intercalate parts ++ lead isPretty level ++ [closing])

mutual

/-- The tree at a level. -/
def writeAt (isPretty : Bool) (level : Nat) : Json → List Char
  | null => ['n', 'u', 'l', 'l']
  | bool true => ['t', 'r', 'u', 'e']
  | bool false => ['f', 'a', 'l', 's', 'e']
  | number spelling => spelling
  | string spelling => quote spelling
  | array items => enclosed isPretty level '[' ']' (writeItems isPretty (level + 1) items)
  | object members => enclosed isPretty level '{' '}' (writeMembers isPretty (level + 1) members)

/-- Items at a level, each with the white space in front of it. -/
def writeItems (isPretty : Bool) (level : Nat) : List Json → List (List Char)
  | [] => []
  | item :: items =>
    (lead isPretty level ++ writeAt isPretty level item) :: writeItems isPretty level items

/-- Members at a level, each with the white space in front of it. -/
def writeMembers (isPretty : Bool) (level : Nat) :
    List (List Char × Json) → List (List Char)
  | [] => []
  | (name, value) :: members =>
    (lead isPretty level ++ quote name ++ ':' :: (gap isPretty ++ writeAt isPretty level value)) ::
      writeMembers isPretty level members

end

/-- The tree in one of the two layouts. -/
def write (isPretty : Bool) (j : Json) : String := String.ofList (j.writeAt isPretty 0)

end ScalaLex.Json
