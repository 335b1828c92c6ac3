import ScalaLex.Token.Basic

/-!
# Token counts

How many tokens of each kind a list holds, and how many operators among them are longer
than one byte. Counts of a list come from adding up its tokens one by one, so counts of
two lists add up to the counts of their concatenation (`Counts.ofTokens_append`).
-/

namespace ScalaLex

/-- Totals per kind. -/
structure Counts where
  reserved : Nat := 0
  identifiers : Nat := 0
  literals : Nat := 0
  operators : Nat := 0
  /-- Operators whose text is longer than one byte. -/
  mergedOperators : Nat := 0
deriving Repr, DecidableEq, Inhabited

namespace Counts

/-- Sums field by field. -/
def add (a b : Counts) : Counts where
  reserved := a.reserved + b.reserved
  identifiers := a.identifiers + b.identifiers
  literals := a.literals + b.literals
  operators := a.operators + b.operators
  mergedOperators := a.mergedOperators + b.mergedOperators

/-- The counts of a single token. -/
def ofToken (t : Token) : Counts :=
  match t.kind with
  | .reserved => { reserved := 1 }
  | .identifier => { identifiers := 1 }
  | .literal => { literals := 1 }
  | .operator => { operators := 1, mergedOperators := if 1 < t.value.utf8ByteSize then 1 else 0 }

/-- The counts of a list of tokens. -/
def ofTokens (ts : List Token) : Counts := ts.foldl (fun c t => c.add (ofToken t)) {}

/-- All tokens. -/
def total (c : Counts) : Nat := c.reserved + c.identifiers + c.literals + c.operators

/-- Tokens of one kind. -/
def get (c : Counts) : Kind → Nat
  | .reserved => c.reserved
  | .identifier => c.identifiers
  | .literal => c.literals
  | .operator => c.operators

/-- Sums over several lists. -/
def sum (cs : List Counts) : Counts := cs.foldl add {}

/-- One line that lists the counts under a label. -/
def text (label : String) (c : Counts) : String :=
  let perKind := Kind.all.map fun k => k.name ++ " " ++ toString (c.get k)
  label ++ ": " ++ toString c.total ++ " tokens (" ++ String.intercalate ", " perKind ++
    ", merged " ++ toString c.mergedOperators ++ ")"

theorem add_assoc (a b c : Counts) : (a.add b).add c = a.add (b.add c) := by
  simp [add, Nat.add_assoc]

theorem zero_add (a : Counts) : ({} : Counts).add a = a := by simp [add]

theorem add_zero (a : Counts) : a.add {} = a := by simp [add]

theorem foldl_ofToken (c : Counts) (ts : List Token) :
    ts.foldl (fun c t => c.add (ofToken t)) c = c.add (ofTokens ts) := by
  induction ts generalizing c with
  | nil => simp [ofTokens, add_zero]
  | cons t ts ih =>
    have h : ofTokens (t :: ts) = (ofToken t).add (ofTokens ts) := by
      rw [ofTokens, List.foldl_cons, ih, zero_add]
    rw [List.foldl_cons, ih, h, add_assoc]

/-- Counts of a concatenation are sums. -/
theorem ofTokens_append (ts us : List Token) :
    ofTokens (ts ++ us) = (ofTokens ts).add (ofTokens us) := by
  rw [ofTokens, List.foldl_append, foldl_ofToken]
  rfl

end Counts

end ScalaLex
