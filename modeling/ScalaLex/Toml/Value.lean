/-!
# TOML values

A TOML document as a tree. Floats and dates are kept as they are spelled. The entries of a
table keep the order in which they were made, each key once.
-/

namespace ScalaLex.Toml

/-- A value of a TOML document. -/
inductive Value where
  | string (text : String)
  | integer (n : Int)
  | float (spelling : String)
  | datetime (spelling : String)
  | boolean (b : Bool)
  | array (items : List Value)
  | table (entries : List (String × Value))
deriving Repr, Inhabited

/-- The value of a key. -/
def lookup? (entries : List (String × Value)) (key : String) : Option Value :=
  (entries.find? (·.1 == key)).map (·.2)

end ScalaLex.Toml
