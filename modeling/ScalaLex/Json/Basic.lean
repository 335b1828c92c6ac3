import ScalaLex.Text.Hex

/-!
# JSON trees

A JSON text as a tree. Numbers and strings are kept as they are spelled, a string without
its quotes, so the tree holds every text of the grammar; `Json.text?` reads what a
spelling says. Members of an object keep their order, and a name may come twice.

`Json.escape` spells a text with the fewest escapes : quote, backslash and the controls
below U+0020. `Json.unescape?` reads any spelling; half of a surrogate pair without the
other half says nothing.
-/

namespace ScalaLex

/-- A JSON value as it is spelled. -/
inductive Json where
  | null
  | bool (b : Bool)
  | number (spelling : List Char)
  | string (spelling : List Char)
  | array (items : List Json)
  | object (members : List (List Char × Json))
deriving Repr, Inhabited

namespace Json

/-- The spelling of one character. -/
def escapeChar (c : Char) : List Char :=
  match c with
  | '"' => ['\\', '"']
  | '\\' => ['\\', '\\']
  | '\x08' => ['\\', 'b']
  | '\t' => ['\\', 't']
  | '\n' => ['\\', 'n']
  | '\x0c' => ['\\', 'f']
  | '\r' => ['\\', 'r']
  | c =>
    if c < ' ' then ['\\', 'u', '0', '0', Hex.digit (c.toNat / 16), Hex.digit (c.toNat % 16)]
    else [c]

/-- The spelling of a text. -/
def escape (text : String) : List Char := text.toList.flatMap escapeChar

/-- A text as a JSON string. -/
def ofText (text : String) : Json := string (escape text)

/-- A count as a JSON number. -/
def ofNat (n : Nat) : Json := number (Nat.toDigits 10 n)

/-- An object with plain names. -/
def ofMembers (members : List (String × Json)) : Json :=
  object (members.map fun m => (escape m.1, m.2))

/-- The first half of a surrogate pair. -/
def isHighSurrogate (n : Nat) : Bool := 0xD800 ≤ n && n < 0xDC00

/-- The second half of a surrogate pair. -/
def isLowSurrogate (n : Nat) : Bool := 0xDC00 ≤ n && n < 0xE000

/-- The character that a letter after a backslash stands for. -/
def shortEscape? : Char → Option Char
  | '"' => some '"'
  | '\\' => some '\\'
  | '/' => some '/'
  | 'b' => some '\x08'
  | 'f' => some '\x0c'
  | 'n' => some '\n'
  | 'r' => some '\r'
  | 't' => some '\t'
  | _ => none

/-- The text that a spelling says. -/
def unescape? : List Char → Option (List Char)
  | [] => some []
  | '\\' :: 'u' :: a :: b :: c :: d :: rest => do
    let high ← Hex.value4? a b c d
    if isHighSurrogate high then
      match rest with
      | '\\' :: 'u' :: a :: b :: c :: d :: rest => do
        let low ← Hex.value4? a b c d
        if isLowSurrogate low then
          return Char.ofNat (0x10000 + (high - 0xD800) * 0x400 + (low - 0xDC00)) ::
            (← unescape? rest)
        else none
      | _ => none
    else if isLowSurrogate high then none
    else return Char.ofNat high :: (← unescape? rest)
  | '\\' :: c :: rest => do return (← shortEscape? c) :: (← unescape? rest)
  | ['\\'] => none
  | c :: rest => do return c :: (← unescape? rest)

/-- The text of a JSON string. -/
def text? : Json → Option String
  | string spelling => (unescape? spelling).map String.ofList
  | _ => none

/-- The count that a JSON number of digits only stands for. -/
def nat? : Json → Option Nat
  | number spelling =>
    if spelling.all Char.isDigit then
      some (spelling.foldl (fun n c => n * 10 + (c.toNat - '0'.toNat)) 0)
    else none
  | _ => none

end Json

end ScalaLex
