import ScalaLex.Json.Basic

/-!
# Reading JSON

`Json.parse?` reads a text that is one JSON value with white space around it, by the
grammar and nothing else. The functions here take the front off a list of characters and
hand back the rest. Nesting and repetition are bounded by a count of steps, for which the
length of the text is always enough.
-/

namespace ScalaLex.Json

/-- JSON white space. -/
def isSpace (c : Char) : Bool := c == ' ' || c == '\t' || c == '\n' || c == '\r'

/-- Without the white space in front. -/
def skipSpace (cs : List Char) : List Char := cs.dropWhile isSpace

/-- A string up to its closing quote, which is taken off. -/
def spelling? : List Char → Option (List Char × List Char)
  | [] => none
  | '"' :: rest => some ([], rest)
  | '\\' :: 'u' :: a :: b :: c :: d :: rest =>
    if (Hex.value4? a b c d).isSome then
      (spelling? rest).map fun (s, rest) => ('\\' :: 'u' :: a :: b :: c :: d :: s, rest)
    else none
  | '\\' :: c :: rest =>
    if (shortEscape? c).isSome then (spelling? rest).map fun (s, rest) => ('\\' :: c :: s, rest)
    else none
  | c :: rest =>
    if c < ' ' || c == '\\' then none else (spelling? rest).map fun (s, rest) => (c :: s, rest)

/-- One or more digits. -/
def digits? (cs : List Char) : Option (List Char × List Char) :=
  let ds := cs.takeWhile Char.isDigit
  if ds.isEmpty then none else some (ds, cs.dropWhile Char.isDigit)

/-- The integer part of a number, which has no needless zero in front. -/
def integer? (cs : List Char) : Option (List Char × List Char) :=
  match cs with
  | '0' :: rest => some (['0'], rest)
  | cs => digits? cs

/-- The fraction of a number, if there is one. -/
def fraction? (cs : List Char) : Option (List Char × List Char) :=
  match cs with
  | '.' :: rest => (digits? rest).map fun (ds, rest) => ('.' :: ds, rest)
  | cs => some ([], cs)

/-- The exponent of a number, if there is one. -/
def exponent? (cs : List Char) : Option (List Char × List Char) :=
  match cs with
  | e :: s :: rest =>
    if e == 'e' || e == 'E' then
      if s == '+' || s == '-' then (digits? rest).map fun (ds, rest) => (e :: s :: ds, rest)
      else (digits? (s :: rest)).map fun (ds, rest) => (e :: ds, rest)
    else some ([], cs)
  | [e] => if e == 'e' || e == 'E' then none else some ([], cs)
  | [] => some ([], cs)

/-- A number. -/
def number? (cs : List Char) : Option (List Char × List Char) := do
  let (sign, cs) := match cs with
    | '-' :: rest => (['-'], rest)
    | cs => ([], cs)
  let (whole, cs) ← integer? cs
  let (fraction, cs) ← fraction? cs
  let (exponent, cs) ← exponent? cs
  return (sign ++ whole ++ fraction ++ exponent, cs)

/-- A name with the colon after it. -/
def name? (cs : List Char) : Option (List Char × List Char) :=
  match skipSpace cs with
  | '"' :: rest => do
    let (name, rest) ← spelling? rest
    match skipSpace rest with
    | ':' :: rest => some (name, rest)
    | _ => none
  | _ => none

mutual

/-- A value, with white space allowed in front. -/
def value? : Nat → List Char → Option (Json × List Char)
  | 0, _ => none
  | steps + 1, cs =>
    match skipSpace cs with
    | 'n' :: 'u' :: 'l' :: 'l' :: rest => some (null, rest)
    | 't' :: 'r' :: 'u' :: 'e' :: rest => some (bool true, rest)
    | 'f' :: 'a' :: 'l' :: 's' :: 'e' :: rest => some (bool false, rest)
    | '"' :: rest => (spelling? rest).map fun (s, rest) => (string s, rest)
    | '[' :: rest =>
      match skipSpace rest with
      | ']' :: rest => some (array [], rest)
      | rest => (items? steps rest).map fun (items, rest) => (array items, rest)
    | '{' :: rest =>
      match skipSpace rest with
      | '}' :: rest => some (object [], rest)
      | rest => (members? steps rest).map fun (members, rest) => (object members, rest)
    | cs => (number? cs).map fun (s, rest) => (number s, rest)

/-- One or more items up to the closing bracket, which is taken off. -/
def items? : Nat → List Char → Option (List Json × List Char)
  | 0, _ => none
  | steps + 1, cs => do
    let (item, rest) ← value? steps cs
    match skipSpace rest with
    | ',' :: rest => (items? steps rest).map fun (items, rest) => (item :: items, rest)
    | ']' :: rest => some ([item], rest)
    | _ => none

/-- One or more members up to the closing brace, which is taken off. -/
def members? : Nat → List Char → Option (List (List Char × Json) × List Char)
  | 0, _ => none
  | steps + 1, cs => do
    let (name, rest) ← name? cs
    let (value, rest) ← value? steps rest
    match skipSpace rest with
    | ',' :: rest =>
      (members? steps rest).map fun (members, rest) => ((name, value) :: members, rest)
    | '}' :: rest => some ([(name, value)], rest)
    | _ => none

end

/-- The tree of a JSON text. -/
def parse? (text : String) : Option Json :=
  let cs := text.toList
  match value? (cs.length + 1) cs with
  | some (j, rest) => if (skipSpace rest).isEmpty then some j else none
  | none => none

end ScalaLex.Json
