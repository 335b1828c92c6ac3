import ScalaLex.Tree.Node

/-!
# Looking up paths

`FileTree.resolve` follows a path from the root or from the working directory, name by
name, through the symbolic links on its way. It ends at a `Trail`, the nodes from there
back to the root, or with the `LookupError` that the operating system would report. Names,
the links on the way and the text of a path are limited. `FileTree.realPath` is the
absolute path without links ; the limit for the text of a path holds for every path that is
looked up to make it.

`FileTree.list` gives the entries of a directory. Every name can be looked up, but there can
be directories that the operating system refuses to list.
-/

namespace ScalaLex

/-- Why a path leads nowhere or cannot be read. -/
inductive LookupError where
  | notFound
  | notADirectory
  | isADirectory
  | nameTooLong
  | tooManyLinks
  | nulInPath
deriving Repr, DecidableEq, Inhabited

/-- The text that the operating system has for the error. -/
def LookupError.message : LookupError → String
  | notFound => "No such file or directory (os error 2)"
  | notADirectory => "Not a directory (os error 20)"
  | isADirectory => "Is a directory (os error 21)"
  | nameTooLong => "File name too long (os error 36)"
  | tooManyLinks => "Too many levels of symbolic links (os error 40)"
  | nulInPath => "file name contained an unexpected NUL byte"

/-- The named nodes from a place in a tree back to the root, which has no name and is not
listed. -/
abbrev Trail := List (String × Node)

/-- A tree, and the directory that relative paths start from. -/
structure FileTree where
  root : Node := .directory []
  /-- The names from the root to the working directory. -/
  workingDirectory : List String := []
  /-- The directories that cannot be listed, by their names from the root, with what the
  operating system tells of each. -/
  refusals : List (List String × String) := []
  isOrdered_root : root.isOrdered = true := by rfl

namespace FileTree

/-- The most bytes of a path. -/
def maxPath : Nat := 4095

/-- The most links on the way of a path. -/
def maxLinks : Nat := 40

/-- The tree with a node put at names from the root, if entries can have these names. -/
def put (t : FileTree) (names : List String) (new : Node) (h : new.isOrdered = true) : FileTree :=
  if hnames : names.all Path.isName = true then
    { t with
      root := new.put names t.root
      isOrdered_root := Node.isOrdered_put h names t.root hnames t.isOrdered_root }
  else t

/-- The node at the end of a trail. -/
def nodeAt (t : FileTree) : Trail → Node
  | [] => t.root
  | (_, node) :: _ => node

/-- The text of a path is short enough to be looked up. -/
def fits (path : String) : Bool := path.utf8ByteSize ≤ maxPath

/-- The bytes that the names of a trail take in its absolute path. -/
def extent : Trail → Nat
  | [] => 0
  | (name, _) :: rest => extent rest + 1 + name.utf8ByteSize

/-- The names behind a place ask for a directory there : they go out of it, or they end
without a further name. -/
def asksDirectory (names : List String) : Bool :=
  !names.isEmpty && (names.find? fun n => !Path.isHere n).all (· == "..")

/-- Follow names from a trail, with at most `links` symbolic links on the way. A place that
is not `allowed` with the names behind it, or a link whose place is not, counts as a name that
is too long. -/
def walk (t : FileTree) (allowed : Trail → List String → Bool) (links : Nat) (here : Trail) :
    List String → Except LookupError Trail
  | [] => .ok here
  | name :: rest =>
    if !(t.nodeAt here).isDirectory then .error .notADirectory
    else if Path.isHere name then walk t allowed links here rest
    else if name == ".." then walk t allowed links here.tail rest
    else if Path.maxName < name.utf8ByteSize then .error .nameTooLong
    else match (t.nodeAt here).entries.find? (·.1 == name) with
      | none => .error .notFound
      | some (name, .link target) =>
        if !allowed ((name, .link target) :: here) [] then .error .nameTooLong
        else match links with
          | 0 => .error .tooManyLinks
          | links + 1 =>
            walk t allowed links (if Path.isAbsolute target then [] else here)
              (Path.names target ++ rest)
      | some entry =>
        if !allowed (entry :: here) rest then .error .nameTooLong
        else walk t allowed links (entry :: here) rest
termination_by names => (links, names.length)

/-- Every place is allowed. -/
def anywhere : Trail → List String → Bool := fun _ _ => true

/-- The trail of the working directory. -/
def start (t : FileTree) : Trail :=
  match t.walk anywhere maxLinks [] t.workingDirectory with
  | .ok here => here
  | .error _ => []

/-- The trail of a path, through places that are `allowed`. -/
def follow (t : FileTree) (allowed : Trail → List String → Bool) (path : String) :
    Except LookupError Trail :=
  if path.toList.contains '\x00' then .error .nulInPath
  else if path.isEmpty then .error .notFound
  else if !fits path then .error .nameTooLong
  else t.walk allowed maxLinks (if Path.isAbsolute path then [] else t.start) (Path.names path)

/-- The trail of a path. -/
def resolve (t : FileTree) (path : String) : Except LookupError Trail :=
  t.follow anywhere path

/-- The node that a path leads to. -/
def node? (t : FileTree) (path : String) : Except LookupError Node := (t.resolve path).map t.nodeAt

/-- The path leads somewhere. -/
def exists? (t : FileTree) (path : String) : Bool :=
  match t.node? path with
  | .ok _ => true
  | .error _ => false

/-- The path leads to a regular file. -/
def isFile (t : FileTree) (path : String) : Bool :=
  match t.node? path with
  | .ok node => node.isFile
  | .error _ => false

/-- The path leads to a directory. -/
def isDirectory (t : FileTree) (path : String) : Bool :=
  match t.node? path with
  | .ok node => node.isDirectory
  | .error _ => false

/-- The absolute path of a trail. -/
def canonical (here : Trail) : String := Path.absolute (here.map (·.1)).reverse

/-- A place can be looked up by its absolute path, which has a slash at its end where the
names behind the place ask for a directory. -/
def isNameable (here : Trail) (rest : List String) : Bool :=
  extent here + (if asksDirectory rest then 1 else 0) ≤ maxPath

/-- The absolute path, without links, of the place that a path leads to. It is made name by
name, and every place on the way is looked up by its absolute path. -/
def realPath (t : FileTree) (path : String) : Except LookupError String :=
  (t.follow isNameable path).map canonical

/-- What the operating system tells of a place that it refuses to list. -/
def refusal? (t : FileTree) (here : Trail) : Option String :=
  t.refusals.lookup (here.map (·.1)).reverse

/-- The entries of the directory at a path, or what the operating system tells. -/
def list (t : FileTree) (path : String) : Except String (List (String × Node)) :=
  match t.resolve path with
  | .error e => .error e.message
  | .ok here =>
    match t.refusal? here, t.nodeAt here with
    | some message, _ => .error message
    | none, .directory entries => .ok entries
    | none, _ => .error LookupError.notADirectory.message

/-- What the file at a path holds. -/
def read (t : FileTree) (path : String) : Except LookupError Content :=
  match t.node? path with
  | .ok (.file content) => .ok content
  | .ok _ => .error .isADirectory
  | .error e => .error e

end FileTree

end ScalaLex
