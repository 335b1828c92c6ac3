import ScalaLex.Text.Hex

/-!
# TOML strings

A string stands between double quotes, where a backslash starts an escape, or between
single quotes, where it does not. Three quotes on each side make a string of several
lines : a line end just after the opening quotes does not count, every other one is a line
feed, and one or two quotes can stand before the closing ones. Between three double quotes
a backslash at the end of a line takes all white space up to the next character with it.

The readers here start after the opening quotes and take off the closing ones.
-/

namespace ScalaLex.Toml

/-- A character that can stand in a string or a comment as it is. -/
def isPlain (c : Char) : Bool := c == '\t' || (' ' ≤ c && c != '\x7f')

/-- The character that a letter after a backslash stands for. -/
def shortEscape? : Char → Option Char
  | 'b' => some '\x08'
  | 't' => some '\t'
  | 'n' => some '\n'
  | 'f' => some '\x0c'
  | 'r' => some '\r'
  | '"' => some '"'
  | '\\' => some '\\'
  | _ => none

/-- The scalar value of eight hexadecimal digits. -/
def scalar8? (a b c d e f g h : Char) : Option Char := do
  Hex.scalar? ((← Hex.value4? a b c d) * 0x10000 + (← Hex.value4? e f g h))

/-- A character in front of a text that was read. -/
def cons (c : Char) : List Char × List Char → List Char × List Char
  | (text, rest) => (c :: text, rest)

/-- One line between double quotes. -/
def basic? : List Char → Option (List Char × List Char)
  | [] => none
  | '"' :: rest => some ([], rest)
  | '\\' :: 'u' :: a :: b :: c :: d :: rest => do
    let scalar ← (Hex.value4? a b c d).bind Hex.scalar?
    return cons scalar (← basic? rest)
  | '\\' :: 'U' :: a :: b :: c :: d :: e :: f :: g :: h :: rest => do
    let scalar ← scalar8? a b c d e f g h
    return cons scalar (← basic? rest)
  | '\\' :: c :: rest => do
    let escaped ← shortEscape? c
    return cons escaped (← basic? rest)
  | c :: rest => if isPlain c && c != '\\' then (basic? rest).map (cons c) else none

/-- One line between single quotes. -/
def literal? : List Char → Option (List Char × List Char)
  | [] => none
  | '\x27' :: rest => some ([], rest)
  | c :: rest => if isPlain c then (literal? rest).map (cons c) else none

/-- What follows a closing run of three quotes : up to two more belong to the text. -/
def closing (quote : Char) : List Char → List Char × List Char
  | a :: b :: rest =>
    if a == quote then
      if b == quote then ([quote, quote], rest) else ([quote], b :: rest)
    else ([], a :: b :: rest)
  | [a] => if a == quote then ([quote], []) else ([], [a])
  | [] => ([], [])

/-- Without spaces, tabs and line ends in front. -/
def skipLines : List Char → List Char
  | ' ' :: rest => skipLines rest
  | '\t' :: rest => skipLines rest
  | '\n' :: rest => skipLines rest
  | '\r' :: '\n' :: rest => skipLines rest
  | cs => cs

theorem skipLines_length_le (cs : List Char) : (skipLines cs).length ≤ cs.length := by
  fun_induction skipLines cs <;> simp_all <;> omega

/-- Without the spaces and tabs in front. -/
def skipBlanks (cs : List Char) : List Char := cs.dropWhile fun c => c == ' ' || c == '\t'

/-- What follows a line end. -/
def newline? : List Char → Option (List Char)
  | '\n' :: rest => some rest
  | '\r' :: '\n' :: rest => some rest
  | _ => none

/-- What follows a backslash at the end of a line, less the white space. -/
def continued? (cs : List Char) : Option { rest : List Char // rest.length ≤ cs.length } :=
  let blank := fun c : Char => c == ' ' || c == '\t'
  if (newline? (skipBlanks cs)).isSome then
    some ⟨skipLines (skipBlanks cs), by
      have h := skipLines_length_le (skipBlanks cs)
      have h' : (skipBlanks cs).length ≤ cs.length := (List.dropWhile_sublist blank).length_le
      omega⟩
  else none

/-- Several lines between double quotes. -/
def multiBasic? : List Char → Option (List Char × List Char)
  | [] => none
  | '"' :: '"' :: '"' :: rest => some (closing '"' rest)
  | '\n' :: rest => (multiBasic? rest).map (cons '\n')
  | '\r' :: '\n' :: rest => (multiBasic? rest).map (cons '\n')
  | '\\' :: 'u' :: a :: b :: c :: d :: rest => do
    let scalar ← (Hex.value4? a b c d).bind Hex.scalar?
    return cons scalar (← multiBasic? rest)
  | '\\' :: 'U' :: a :: b :: c :: d :: e :: f :: g :: h :: rest => do
    let scalar ← scalar8? a b c d e f g h
    return cons scalar (← multiBasic? rest)
  | '\\' :: c :: rest =>
    match shortEscape? c with
    | some escaped => (multiBasic? rest).map (cons escaped)
    | none =>
      match continued? (c :: rest) with
      | some ⟨rest', _⟩ => multiBasic? rest'
      | none => none
  | c :: rest => if isPlain c && c != '\\' then (multiBasic? rest).map (cons c) else none
termination_by cs => cs.length
decreasing_by all_goals simp_all; try omega

/-- Several lines between single quotes. -/
def multiLiteral? : List Char → Option (List Char × List Char)
  | [] => none
  | '\x27' :: '\x27' :: '\x27' :: rest => some (closing '\x27' rest)
  | '\n' :: rest => (multiLiteral? rest).map (cons '\n')
  | '\r' :: '\n' :: rest => (multiLiteral? rest).map (cons '\n')
  | c :: rest => if isPlain c then (multiLiteral? rest).map (cons c) else none

/-- Without the line end in front. -/
def dropNewline (cs : List Char) : List Char := (newline? cs).getD cs

/-- A string on one line, from its opening quote on. -/
def line? : List Char → Option (List Char × List Char)
  | '"' :: rest => basic? rest
  | '\x27' :: rest => literal? rest
  | _ => none

/-- A string, from its opening quotes on. -/
def string? : List Char → Option (List Char × List Char)
  | '"' :: '"' :: '"' :: rest => multiBasic? (dropNewline rest)
  | '\x27' :: '\x27' :: '\x27' :: rest => multiLiteral? (dropNewline rest)
  | cs => line? cs

end ScalaLex.Toml
