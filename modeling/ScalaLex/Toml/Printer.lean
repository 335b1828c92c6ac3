import ScalaLex.Toml.Number
import ScalaLex.Toml.Text
import ScalaLex.Toml.Value

/-!
# Writing TOML

A document is written as sections of keys with values, an empty line between sections. A
string takes the first of five styles that can hold it without an escape, and only if none
can does it take one with escapes. A list of two or more items has one item a line.
-/

namespace ScalaLex.Toml

/-- The ways to write a string. -/
inductive Style where
  | basic
  | literal
  | multiBasic
  | multiLiteral
deriving Repr, DecidableEq, Inhabited

namespace Style

/-- The text stands between triple quotes. -/
def isMulti : Style → Bool
  | multiBasic | multiLiteral => true
  | basic | literal => false

/-- The quotes are double ones, and escapes are read. -/
def isBasic : Style → Bool
  | basic | multiBasic => true
  | literal | multiLiteral => false

/-- The quotes on either side. -/
def quotes (s : Style) : List Char :=
  List.replicate (if s.isMulti then 3 else 1) (if s.isBasic then '"' else '\x27')

end Style

/-- A control character that has to be escaped. -/
def isControl (c : Char) : Bool := (c < ' ' || c == '\x7f') && c != '\t' && c != '\n'

/-- The longest run of `c`, where `run` have come just before and `longest` is the longest
so far. -/
def longestRun (c : Char) (run longest : Nat) : List Char → Nat
  | [] => longest
  | d :: rest =>
    if d == c then longestRun c (run + 1) (max longest (run + 1)) rest
    else longestRun c 0 longest rest

/-- The style of a text. -/
def styleOf (cs : List Char) : Style :=
  let hasControl := cs.any isControl
  let hasBackslash := cs.contains '\\'
  let hasNewline := cs.contains '\n'
  let doubles := longestRun '"' 0 0 cs
  let singles := longestRun '\x27' 0 0 cs
  if !hasControl && !hasBackslash && doubles == 0 && !hasNewline then .basic
  else if !hasControl && singles == 0 && !hasNewline then .literal
  else if !hasControl && !hasBackslash && doubles ≤ 2 then .multiBasic
  else if !hasControl && singles ≤ 2 then .multiLiteral
  else if hasNewline then .multiBasic
  else .basic

/-- A character other than a quote between double quotes. -/
def escapeChar (isMulti : Bool) (c : Char) : List Char :=
  match c with
  | '\x08' => ['\\', 'b']
  | '\t' => ['\\', 't']
  | '\n' => if isMulti then ['\n'] else ['\\', 'n']
  | '\x0c' => ['\\', 'f']
  | '\r' => ['\\', 'r']
  | '\\' => ['\\', '\\']
  | c =>
    if isControl c then
      ['\\', 'u', '0', '0', Hex.upperDigit (c.toNat / 16), Hex.upperDigit (c.toNat % 16)]
    else [c]

/-- The text between double quotes. A quote is escaped where it would end the string, `run`
being the quotes just before it. -/
def escape (isMulti : Bool) (run : Nat) : List Char → List Char
  | [] => []
  | c :: rest =>
    if c == '"' then
      if run < (if isMulti then 2 else 0) then '"' :: escape isMulti (run + 1) rest
      else '\\' :: '"' :: escape isMulti 0 rest
    else escapeChar isMulti c ++ escape isMulti 0 rest

/-- A string in its style. -/
def writeString (text : String) : List Char :=
  let cs := text.toList
  let style := styleOf cs
  style.quotes ++ (if style.isMulti && cs.contains '\n' then ['\n'] else []) ++
    (if style.isBasic then escape style.isMulti 0 cs else cs) ++ style.quotes

/-- A list of values that are written already. -/
def writeItems : List (List Char) → List Char
  | [] => ['[', ']']
  | [item] => '[' :: item ++ [']']
  | items =>
    '[' :: '\n' :: items.flatMap (fun item => "    ".toList ++ item ++ [',', '\n']) ++ [']']

/-- What is written for a key of a section. -/
inductive Field where
  | boolean (b : Bool)
  | count (n : Nat)
  | text (s : String)
  | texts (ss : List String)
deriving Repr, DecidableEq, Inhabited

/-- The value of a field. -/
def Field.write : Field → List Char
  | boolean true => "true".toList
  | boolean false => "false".toList
  | count n => Nat.toDigits 10 n
  | text s => writeString s
  | texts ss => writeItems (ss.map writeString)

/-- The field has a value in TOML : a count is one of its integers. -/
def Field.isWritable : Field → Bool
  | count n => fits n
  | _ => true

/-- A section under a bare name, its keys bare as well. -/
structure Section where
  name : String
  fields : List (String × Field)
deriving Repr, DecidableEq, Inhabited

/-- The lines of a section. -/
def Section.write (s : Section) : List Char :=
  '[' :: s.name.toList ++ [']', '\n'] ++
    s.fields.flatMap fun (key, f) => key.toList ++ [' ', '=', ' '] ++ f.write ++ ['\n']

/-- All fields of the section have values in TOML. -/
def Section.isWritable (s : Section) : Bool := s.fields.all fun (_, f) => f.isWritable

/-- Sections with an empty line between them. -/
def writeSections : List Section → List Char
  | [] => []
  | [s] => s.write
  | s :: rest => s.write ++ '\n' :: writeSections rest

end ScalaLex.Toml
