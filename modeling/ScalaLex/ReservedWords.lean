import ScalaLex.Text.Order

/-!
# Reserved words

The words of Scala that are not identifiers : keywords, literal words and the names of the
built-in types. The table is compared letter for letter.
-/

namespace ScalaLex.ReservedWords

/-- The words in the order in which the table declares them. -/
def declared : List String :=
  ["abstract", "case", "catch", "class", "def", "do", "else", "extends", "final", "finally",
    "for", "forSome", "if", "implicit", "import", "lazy", "match", "new", "object", "override",
    "package", "private", "protected", "return", "sealed", "super", "this", "throw", "trait",
    "try", "type", "val", "var", "while", "with", "yield",
    "false", "null", "true",
    "Byte", "Short", "Char", "Int", "Long", "Float", "Double", "Boolean", "Unit", "String"]

/-- The word is in the table. -/
def contains (word : String) : Bool := declared.contains word

/-- The words in alphabetical order. -/
def sorted : List String := declared.mergeSort fun a b => !Text.precedes b a

/-- No word is declared twice. -/
theorem nodup_declared : declared.Nodup := by decide

end ScalaLex.ReservedWords
