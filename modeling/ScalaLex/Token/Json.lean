import ScalaLex.Json.Parser
import ScalaLex.Json.Printer
import ScalaLex.Token.Counts

/-!
# Tokens as JSON

A token is an object with the members `kind`, `value` and `line`, written in this order.
When a token is read the members may come in any order and other members are passed over,
but each of the three comes exactly once; an array of the three values in order is
accepted too. A kind is its name, or an object that maps its name to null.
-/

namespace ScalaLex

namespace Kind

/-- The kind that a JSON value names. -/
def ofJson? : Json → Option Kind
  | .object [(name, .null)] => (Json.text? (.string name)).bind ofName?
  | j => j.text?.bind ofName?

end Kind

namespace Token

/-- The token as an object. -/
def toJson (t : Token) : Json :=
  .ofMembers [("kind", .ofText t.kind.name), ("value", .ofText t.value),
    ("line", .ofNat t.line.toNat)]

/-- A line number. -/
def line? (j : Json) : Option UInt32 :=
  (j.nat?.filter (· < UInt32.size)).map (·.toUInt32)

/-- A token from the values of its members. -/
def ofParts? (kind value line : Json) : Option Token := do
  return ⟨← Kind.ofJson? kind, ← value.text?, ← line? line⟩

/-- The value of the member with a name, if it comes exactly once. -/
def member? (name : String) (members : List (String × Json)) : Option Json :=
  match members.filter (·.1 == name) with
  | [(_, value)] => some value
  | _ => none

/-- The members with their names read. -/
def named? (members : List (List Char × Json)) : Option (List (String × Json)) :=
  members.mapM fun (name, value) => (Json.text? (.string name)).map fun n => (n, value)

/-- The token that a JSON value stands for. -/
def ofJson? : Json → Option Token
  | .array [kind, value, line] => ofParts? kind value line
  | .object members => do
    let members ← named? members
    ofParts? (← member? "kind" members) (← member? "value" members) (← member? "line" members)
  | _ => none

/-- The token that a JSON text stands for. -/
def parse? (text : String) : Option Token := (Json.parse? text).bind ofJson?

/-- A list of tokens as a JSON array. -/
def listToJson (ts : List Token) : Json := .array (ts.map toJson)

/-- The list of tokens that a JSON array stands for. -/
def listOfJson? : Json → Option (List Token)
  | .array items => items.mapM ofJson?
  | _ => none

end Token

/-- Counts as an object. -/
def Counts.toJson (c : Counts) : Json :=
  .ofMembers [("reserved", .ofNat c.reserved), ("identifiers", .ofNat c.identifiers),
    ("literals", .ofNat c.literals), ("operators", .ofNat c.operators),
    ("merged_operators", .ofNat c.mergedOperators)]

end ScalaLex
