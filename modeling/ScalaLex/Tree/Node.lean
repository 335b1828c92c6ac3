import ScalaLex.Tree.Path

/-!
# File trees

A tree of files, directories and symbolic links, held as a value. The entries of a
directory have names that entries can have and stand in the order of their names, each name
once (`Node.isOrdered`), and `Node.put` keeps them so (`isOrdered_put`).
-/

namespace ScalaLex

/-- What a file holds. A file of zeros is told by its length alone. -/
inductive Content where
  | bytes (data : List UInt8)
  | zeros (length : Nat)
deriving Repr, DecidableEq, Inhabited

namespace Content

/-- The bytes of the file. -/
def toList : Content → List UInt8
  | bytes data => data
  | zeros length => List.replicate length 0

/-- How many bytes the file has. -/
def size : Content → Nat
  | bytes data => data.length
  | zeros length => length

theorem length_toList (c : Content) : c.toList.length = c.size := by
  cases c <;> simp [toList, size]

end Content

/-- A file, a symbolic link or a directory. -/
inductive Node where
  | file (content : Content)
  | link (target : String)
  | directory (entries : List (String × Node))
deriving Repr, Inhabited

namespace Node

/-- It is a regular file. -/
def isFile : Node → Bool
  | file _ => true
  | _ => false

/-- It is a directory. -/
def isDirectory : Node → Bool
  | directory _ => true
  | _ => false

/-- The entries of a directory. -/
def entries : Node → List (String × Node)
  | directory entries => entries
  | _ => []

mutual

/-- In every directory the names are names of entries and increase. -/
def isOrdered : Node → Bool
  | directory entries => areOrdered none entries
  | _ => true

/-- The names increase, the first one from `after?` on, and the entries are ordered. -/
def areOrdered (after? : Option String) : List (String × Node) → Bool
  | [] => true
  | (name, node) :: rest =>
    Path.isName name && after?.all (fun a => Text.precedes a name) && isOrdered node &&
      areOrdered (some name) rest

end

mutual

/-- The tree with `new` in place of what lies at the names. Directories on the way are
made. -/
def put (new : Node) : List String → Node → Node
  | [], _ => new
  | name :: names, directory entries => directory (putEntry new name names entries)
  | name :: names, _ => directory [(name, put new names (directory []))]

/-- The entries with `new` in place of what lies at the names. -/
def putEntry (new : Node) (name : String) (names : List String) :
    List (String × Node) → List (String × Node)
  | [] => [(name, put new names (directory []))]
  | (n, node) :: rest =>
    if Text.precedes name n then (name, put new names (directory [])) :: (n, node) :: rest
    else if name = n then (n, put new names node) :: rest
    else (n, node) :: putEntry new name names rest

end

/-- Names that stand in order may start later. -/
theorem areOrdered_none {after? : Option String} {entries : List (String × Node)}
    (h : areOrdered after? entries = true) : areOrdered none entries = true := by
  cases entries with
  | nil => rfl
  | cons e rest =>
    obtain ⟨name, node⟩ := e
    simp only [areOrdered, Bool.and_eq_true, Option.all_none, and_true] at h ⊢
    exact ⟨⟨h.1.1.1, h.1.2⟩, h.2⟩

mutual

/-- Putting an ordered tree into an ordered tree keeps it ordered. -/
theorem isOrdered_put {new : Node} (hnew : new.isOrdered = true) :
    ∀ (names : List String) (node : Node), names.all Path.isName = true →
      node.isOrdered = true → (put new names node).isOrdered = true
  | [], _, _, _ => by simpa [put] using hnew
  | name :: names, .directory entries, hnames, h => by
    rw [List.all_cons, Bool.and_eq_true] at hnames
    rw [put, isOrdered]
    exact areOrdered_putEntry hnew name names hnames.1 hnames.2 none entries h rfl
  | name :: names, .file _, hnames, _ => by
    rw [List.all_cons, Bool.and_eq_true] at hnames
    have hput := isOrdered_put hnew names (.directory []) hnames.2 rfl
    simp [put, isOrdered, areOrdered, hnames.1, hput]
  | name :: names, .link _, hnames, _ => by
    rw [List.all_cons, Bool.and_eq_true] at hnames
    have hput := isOrdered_put hnew names (.directory []) hnames.2 rfl
    simp [put, isOrdered, areOrdered, hnames.1, hput]

theorem areOrdered_putEntry {new : Node} (hnew : new.isOrdered = true) (name : String)
    (names : List String) (hself : Path.isName name = true)
    (hnames : names.all Path.isName = true) :
    ∀ (after? : Option String) (entries : List (String × Node)),
      areOrdered after? entries = true → after?.all (fun a => Text.precedes a name) = true →
        areOrdered after? (putEntry new name names entries) = true
  | after?, [], _, hname => by
    have hput := isOrdered_put hnew names (.directory []) hnames rfl
    simp [putEntry, areOrdered, hput, hname, hself]
  | after?, (n, node) :: rest, h, hname => by
    have hput := isOrdered_put hnew names (.directory []) hnames rfl
    simp only [areOrdered, Bool.and_eq_true] at h
    rw [putEntry]
    split
    · rename_i hlt
      simp [areOrdered, hput, hname, hself, hlt, h.1.1.1, h.1.2, h.2]
    · split
      · rename_i _ heq
        have hnode := isOrdered_put hnew names node hnames h.1.2
        simp only [areOrdered, Bool.and_eq_true]
        exact ⟨⟨h.1.1, hnode⟩, h.2⟩
      · rename_i hlt hne
        have hn := (Text.precedes_or_precedes hne).resolve_left hlt
        simp only [areOrdered, Bool.and_eq_true]
        exact ⟨h.1, areOrdered_putEntry hnew name names hself hnames (some n) rest h.2
          (by simpa using hn)⟩

end

end Node

end ScalaLex
