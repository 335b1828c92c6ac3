import ScalaLex.Toml.Number
import ScalaLex.Toml.Table
import ScalaLex.Toml.Text

/-!
# Reading TOML

`Toml.parse?` reads a document : keys with values, and headers that say to which table the
keys after them belong. The readers take the front off a list of characters and hand back
the rest. Arrays and inline tables are nested less than 80 deep, and a dotted key has less
than 80 parts. Repetition is bounded by a count of steps, for which the length of the text
is always enough.
-/

namespace ScalaLex.Toml

/-- The bound on nesting and on the parts of a key. -/
def depthLimit : Nat := 80

/-- What follows a comment, which starts with a number sign. -/
def skipComment (cs : List Char) : List Char :=
  match cs with
  | '#' :: rest => rest.dropWhile isPlain
  | _ => cs

/-- What follows the end of a line, with blanks and a comment before it. -/
def lineEnd? (cs : List Char) : Option (List Char) :=
  match skipComment (skipBlanks cs) with
  | [] => some []
  | cs => newline? cs

/-- Blanks, line ends and comments between the parts of an array. A comment ends with its
line. -/
def skipTrivia? (inComment : Bool) : List Char → Option (List Char)
  | [] => if inComment then none else some []
  | '\n' :: rest => skipTrivia? false rest
  | '\r' :: '\n' :: rest => skipTrivia? false rest
  | c :: rest =>
    if inComment then (if isPlain c then skipTrivia? true rest else none)
    else if c == ' ' || c == '\t' then skipTrivia? false rest
    else if c == '#' then skipTrivia? true rest
    else some (c :: rest)

/-- A character of a bare key. -/
def isBare (c : Char) : Bool :=
  ('a' ≤ c && c ≤ 'z') || ('A' ≤ c && c ≤ 'Z') || c.isDigit || c == '-' || c == '_'

/-- One part of a key. -/
def part? (cs : List Char) : Option (String × List Char) :=
  match line? cs with
  | some (text, rest) => some (String.ofList text, rest)
  | none =>
    let bare := cs.takeWhile isBare
    if bare.isEmpty then none else some (String.ofList bare, cs.dropWhile isBare)

/-- The parts of a key, with dots between them and blanks around each. -/
def parts? : Nat → List Char → Option (List String × List Char)
  | 0, _ => none
  | steps + 1, cs => do
    let (part, rest) ← part? (skipBlanks cs)
    match skipBlanks rest with
    | '.' :: rest => (parts? steps rest).map fun (parts, rest) => (part :: parts, rest)
    | rest => some ([part], rest)

/-- A key as the parts before its last one, and the last one. -/
def key? (steps : Nat) (cs : List Char) : Option ((List String × String) × List Char) := do
  let (parts, rest) ← parts? steps cs
  let last ← parts.getLast?
  if parts.length < depthLimit then return ((parts.dropLast, last), rest) else none

/-- A key with the equals sign after it. -/
def keyEquals? (steps : Nat) (cs : List Char) :
    Option ((List String × String) × List Char) := do
  let (key, rest) ← key? steps cs
  match rest with
  | '=' :: rest => some (key, rest)
  | _ => none

/-- An inline table of keys and values. -/
def inlineTable? (pairs : List ((List String × String) × Value)) : Option Value := do
  let entries ← pairs.foldlM (fun (entries : Entries) (key, v) => entries.assign key.1 key.2 v) []
  return .table (toValues entries)

mutual

/-- A value inside `depth` brackets and braces. -/
def value? : Nat → Nat → List Char → Option (Value × List Char)
  | 0, _, _ => none
  | steps + 1, depth, cs =>
    match cs with
    | '"' :: _ => (string? cs).map fun (text, rest) => (.string (String.ofList text), rest)
    | '\x27' :: _ => (string? cs).map fun (text, rest) => (.string (String.ofList text), rest)
    | 't' :: 'r' :: 'u' :: 'e' :: rest => some (.boolean true, rest)
    | 'f' :: 'a' :: 'l' :: 's' :: 'e' :: rest => some (.boolean false, rest)
    | '[' :: rest => do
      if depthLimit ≤ depth + 1 then none
      match ← skipTrivia? false rest with
      | ']' :: rest => some (.array [], rest)
      | rest =>
        let (items, rest) ← items? steps (depth + 1) rest
        return (.array items, rest)
    | '\x7b' :: rest => do
      if depthLimit ≤ depth + 1 then none
      match skipBlanks rest with
      | '\x7d' :: rest => some (.table [], rest)
      | rest =>
        let (pairs, rest) ← pairs? steps (depth + 1) rest
        return (← inlineTable? pairs, rest)
    | cs => number? cs

/-- One or more items up to the closing bracket, which is taken off. A comma may stand
after the last item. -/
def items? : Nat → Nat → List Char → Option (List Value × List Char)
  | 0, _, _ => none
  | steps + 1, depth, cs => do
    let (item, rest) ← value? steps depth cs
    match ← skipTrivia? false rest with
    | ']' :: rest => some ([item], rest)
    | ',' :: rest =>
      match ← skipTrivia? false rest with
      | ']' :: rest => some ([item], rest)
      | rest =>
        let (items, rest) ← items? steps depth rest
        return (item :: items, rest)
    | _ => none

/-- One or more keys with values up to the closing brace, which is taken off. -/
def pairs? : Nat → Nat → List Char →
    Option (List ((List String × String) × Value) × List Char)
  | 0, _, _ => none
  | steps + 1, depth, cs => do
    let (key, rest) ← keyEquals? steps cs
    let (v, rest) ← value? steps depth (skipBlanks rest)
    match skipBlanks rest with
    | '\x7d' :: rest => some ([(key, v)], rest)
    | ',' :: rest =>
      let (pairs, rest) ← pairs? steps depth rest
      return ((key, v) :: pairs, rest)
    | _ => none

end

/-- A document read in part : its entries, and the path of the table that keys go into. -/
structure Document where
  entries : Entries := []
  header : List String := []
deriving Repr, Inhabited

namespace Document

/-- Give a key of the current table a value. -/
def assign (d : Document) (key : List String × String) (v : Value) : Option Document := do
  let entries ← Entries.within false (fun _ inner => inner.assign key.1 key.2 v) d.header .stated
    d.entries
  return { d with entries }

/-- Turn to the table that a header states. -/
def state (d : Document) (key : List String × String) : Option Document := do
  return ⟨← d.entries.state key.1 key.2, key.1 ++ [key.2]⟩

/-- Turn to the table that a header adds to an array. -/
def append (d : Document) (key : List String × String) : Option Document := do
  return ⟨← d.entries.append key.1 key.2, key.1 ++ [key.2]⟩

end Document

/-- A header or a key with its value, on a line of its own. -/
def expression? (steps : Nat) (d : Document) (cs : List Char) :
    Option (Document × List Char) := do
  match cs with
  | '[' :: '[' :: rest =>
    let (key, rest) ← key? steps rest
    match rest with
    | ']' :: ']' :: rest => return (← d.append key, ← lineEnd? rest)
    | _ => none
  | '[' :: rest =>
    let (key, rest) ← key? steps rest
    match rest with
    | ']' :: rest => return (← d.state key, ← lineEnd? rest)
    | _ => none
  | cs =>
    let (key, rest) ← keyEquals? steps cs
    let (v, rest) ← value? steps 0 (skipBlanks rest)
    return (← d.assign key v, ← lineEnd? rest)

/-- The lines of a document. -/
def lines? : Nat → Document → List Char → Option Document
  | 0, _, _ => none
  | steps + 1, d, cs =>
    match skipBlanks cs with
    | [] => some d
    | '#' :: _ => (lineEnd? cs).bind (lines? steps d)
    | '\n' :: rest => lines? steps d rest
    | '\r' :: rest => (newline? ('\r' :: rest)).bind (lines? steps d)
    | cs => do
      let (d, rest) ← expression? (steps + 1) d cs
      lines? steps d rest

/-- The table that a TOML text spells. A mark for the order of bytes may stand in front. -/
def parse? (text : String) : Option (List (String × Value)) := do
  let cs := match text.toList with
    | '\uFEFF' :: rest => rest
    | cs => cs
  let d ← lines? (cs.length + 1) {} cs
  return toValues d.entries

end ScalaLex.Toml
