import ScalaLex.Text.Order

/-!
# Paths

A path is a text of names with slashes between them. An empty name and a single dot stand
for the directory they are in, two dots for the one around it. An entry of a directory has
none of these for its name (`isName`).

The file name of a path is its last name, unless that is two dots. Its extension is what
comes after the last dot in the file name, if there is something before that dot.

Paths stand in the order of their components, so what lies in a directory comes before what
comes after the directory (`precedes`).
-/

namespace ScalaLex.Path

/-- The pieces between slashes. -/
def splitChars : List Char → List (List Char)
  | [] => [[]]
  | c :: rest =>
    if c = '/' then [] :: splitChars rest
    else match splitChars rest with
      | [] => [[c]]
      | piece :: pieces => (c :: piece) :: pieces

/-- The names of a path. -/
def names (path : String) : List String := (splitChars path.toList).map String.ofList

/-- The path starts at the root. -/
def isAbsolute (path : String) : Bool := path.toList.head? == some '/'

/-- A name that stands for the directory it is in. -/
def isHere (name : String) : Bool := name == "" || name == "."

/-- The most bytes of a name. -/
def maxName : Nat := 255

/-- A name that an entry of a directory can have. -/
def isName (name : String) : Bool :=
  !isHere name && name != ".." && name.utf8ByteSize ≤ maxName &&
    name.toList.all fun c => c != '/' && c != '\x00'

/-- The last name of a path. -/
def fileName? (path : String) : Option String :=
  ((names path).filter fun n => !isHere n).getLast?.filter (· != "..")

/-- What comes before and after the last dot. -/
def splitLastDot? (name : List Char) : Option (List Char × List Char) :=
  match name.reverse.dropWhile (· != '.') with
  | [] => none
  | _ :: before => some (before.reverse, (name.reverse.takeWhile (· != '.')).reverse)

/-- The extension of a file name. -/
def extensionOfName? (name : String) : Option String :=
  match splitLastDot? name.toList with
  | some (_ :: _, extension) => some (String.ofList extension)
  | _ => none

/-- The extension of a path. -/
def extension? (path : String) : Option String := (fileName? path).bind extensionOfName?

/-- The path of a name in a directory. -/
def join (directory name : String) : String :=
  if directory.isEmpty || directory.toList.getLast? == some '/' then directory ++ name
  else directory ++ "/" ++ name

/-- The absolute path of names from the root. -/
def absolute (names : List String) : String := "/" ++ String.intercalate "/" names

/-! ## The order of paths -/

/-- What a path is made of. -/
inductive Component where
  | root
  /-- The directory that a relative path starts from, where the path names it. -/
  | here
  /-- The directory around. -/
  | up
  | name (text : String)
deriving Repr, DecidableEq, Inhabited

namespace Component

/-- The place of a kind of component before others. -/
def rank : Component → Nat
  | root => 0
  | here => 1
  | up => 2
  | name _ => 3

/-- The text of a name. -/
def text : Component → String
  | name text => text
  | _ => ""

/-- The component stands before the other one. -/
def precedes (a b : Component) : Bool :=
  a.rank < b.rank || (a.rank == b.rank && Text.precedes a.text b.text)

/-- What a name in a path stands for, if it is not the directory it is in. -/
def ofName? (name : String) : Option Component :=
  if isHere name then none else if name == ".." then some up else some (.name name)

end Component

/-- What comes before the names of a path. -/
def start (path : String) : List Component :=
  if isAbsolute path then [.root] else if (names path).head? == some "." then [.here] else []

/-- The components of a path. -/
def components (path : String) : List Component :=
  start path ++ (names path).filterMap Component.ofName?

/-- The first difference decides, and what goes on comes after what ends. -/
def precedesComponents : List Component → List Component → Bool
  | _, [] => false
  | [], _ :: _ => true
  | a :: as, b :: bs => if a = b then precedesComponents as bs else a.precedes b

/-- The path stands before the other one. -/
def precedes (p q : String) : Bool := precedesComponents (components p) (components q)

/-- Things in the order of their paths. Those of one path keep their order. -/
def sortOn {α : Type} (path : α → String) (xs : List α) : List α :=
  xs.mergeSort fun x y => !precedes (path y) (path x)

end ScalaLex.Path
