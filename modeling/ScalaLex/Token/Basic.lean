/-!
# Tokens

A token is a lexeme of a Scala source with its class and the line on which it begins.
`Token.text` is the form in which a token is shown, `<line>: <KIND> <value>`.
-/

namespace ScalaLex

/-- The four classes of tokens. -/
inductive Kind where
  /-- A word of the reserved-word table. -/
  | reserved
  | identifier
  /-- A numeric literal. The bodies of quoted literals are no tokens. -/
  | literal
  /-- Punctuation, possibly several adjacent lexemes joined. -/
  | operator
deriving Repr, DecidableEq, Inhabited

namespace Kind

/-- Every kind, in the order in which counts are listed. -/
def all : List Kind := [reserved, identifier, literal, operator]

/-- The name of a kind in every output. -/
def name : Kind → String
  | reserved => "RESERVED"
  | identifier => "IDENTIFIER"
  | literal => "LITERAL"
  | operator => "OPERATOR"

/-- The kind of a name. -/
def ofName? (s : String) : Option Kind := all.find? (·.name == s)

theorem ofName?_name (k : Kind) : ofName? k.name = some k := by cases k <;> decide

end Kind

/-- A classified lexeme. -/
structure Token where
  kind : Kind
  value : String
  /-- The line, counted from one, on which the lexeme begins. -/
  line : UInt32
deriving Repr, DecidableEq, Inhabited

namespace Token

/-- The token is punctuation. -/
def isOperator (t : Token) : Bool := t.kind == .operator

/-- The token followed by the text of `next`, on its own line number. -/
def absorb (t next : Token) : Token := { t with value := t.value ++ next.value }

/-- The form in which a token is shown. -/
def text (t : Token) : String := toString t.line ++ ": " ++ t.kind.name ++ " " ++ t.value

/-- Tokens shown one per line. -/
def listing (ts : List Token) : String := String.join (ts.map fun t => t.text ++ "\n")

end Token

end ScalaLex
