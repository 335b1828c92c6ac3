import ScalaLex.Toml.Value

/-!
# Tables of a TOML document

A document makes its tables piece by piece, and what may be added to a table later depends
on how it came about. A table that a header or braces state is made once; one that is only
on the way of a header may still be stated by a header of its own; one on the way of a
dotted key may get more dotted keys. An array of tables stands for its last table.
-/

namespace ScalaLex.Toml

/-- How a table came about. -/
inductive Origin where
  /-- By a header of its own, or as the table of the whole document. -/
  | stated
  /-- On the way of a header. -/
  | implied
  /-- On the way of a dotted key. -/
  | dotted
deriving Repr, DecidableEq, Inhabited

/-- What a key stands for while a document is read. -/
inductive Item where
  | value (v : Value)
  | table (origin : Origin) (entries : List (String × Item))
  /-- An array of tables, the last one first. -/
  | tables (reversed : List (List (String × Item)))
deriving Repr, Inhabited

/-- The keys of a table, in the order in which they were made. -/
abbrev Entries := List (String × Item)

namespace Entries

/-- The entries with what `change` makes of a key; a new key comes last. -/
def alter (key : String) (change : Option Item → Option Item) : Entries → Option Entries
  | [] => (change none).map fun item => [(key, item)]
  | (k, item) :: rest =>
    if k == key then (change (some item)).map fun item => (k, item) :: rest
    else (alter key change rest).map ((k, item) :: ·)

/-- Change the table at a path, making the tables on its way. Along a dotted key no stated
table is entered. -/
def within (isDotted : Bool) (change : Origin → Entries → Option Entries) :
    List String → Origin → Entries → Option Entries
  | [], origin, entries => change origin entries
  | key :: path, _, entries => alter key (fun
      | none =>
        let origin := if isDotted then Origin.dotted else Origin.implied
        (within isDotted change path origin []).map (Item.table origin)
      | some (.value _) => none
      | some (.table origin inner) =>
        if isDotted && origin == .stated then none
        else (within isDotted change path origin inner).map (Item.table origin)
      | some (.tables (last :: before)) =>
        (within isDotted change path .stated last).map fun last => .tables (last :: before)
      | some (.tables []) => none) entries

/-- Add a new key. -/
def insertNew (key : String) (v : Value) : Entries → Option Entries :=
  alter key fun
    | none => some (.value v)
    | some _ => none

/-- Give a dotted key a value. The table that its last part is put into was made by dotted
keys, unless the key has no other part. -/
def assign (path : List String) (key : String) (v : Value) (entries : Entries) : Option Entries :=
  within true (fun origin inner =>
    if (origin == .dotted) == path.isEmpty then none else insertNew key v inner)
    path .stated entries

/-- State a table by a header. -/
def state (path : List String) (key : String) (entries : Entries) : Option Entries :=
  within false (fun _ inner => alter key (fun
      | none => some (.table .stated [])
      | some (.table .implied present) => some (.table .stated present)
      | some _ => none) inner) path .stated entries

/-- Add a table to an array of tables by a header. -/
def append (path : List String) (key : String) (entries : Entries) : Option Entries :=
  within false (fun _ inner => alter key (fun
      | none => some (.tables [[]])
      | some (.tables reversed) => some (.tables ([] :: reversed))
      | some _ => none) inner) path .stated entries

end Entries

mutual

/-- The value that an item amounts to. -/
def Item.toValue : Item → Value
  | .value v => v
  | .table _ entries => .table (toValues entries)
  | .tables reversed => .array (toTables reversed).reverse

/-- The values of the entries of a table. -/
def toValues : List (String × Item) → List (String × Value)
  | [] => []
  | (key, item) :: rest => (key, item.toValue) :: toValues rest

/-- The tables of an array, in the order given. -/
def toTables : List (List (String × Item)) → List Value
  | [] => []
  | entries :: rest => .table (toValues entries) :: toTables rest

end

end ScalaLex.Toml
