import ScalaLex.Proofs.TokenForms

/-!
# Members of an object by name

The value of the one member of an object with a name (`Json.field?`), what is read from a member
that may be missing (`Json.optional?`), and what is read from the items of an array (`Json.list?`).
Of an object that was built from plain names and of an array that was built from a list they give
back what was put in (`Json.field?_ofMembers`, `Json.optional?_ofMembers`, `Json.list?_array`).
-/

namespace ScalaLex.Json

/-- The members of an object with their names read, in order. -/
def named? : Json → Option (List (String × Json))
  | object members => Token.named? members
  | _ => none

/-- The value of the member with a name, if it comes exactly once. -/
def field? (name : String) (j : Json) : Option Json := j.named?.bind (Token.member? name)

/-- What is read from the member with a name, and nothing if there is none. A name that comes twice
is refused. -/
def optional? {α : Type} (read? : Json → Option α) (name : String) (j : Json) :
    Option (Option α) := do
  match (← j.named?).filter (·.1 == name) with
  | [] => return none
  | [(_, value)] => return some (← read? value)
  | _ => none

/-- What is read from the items of an array. -/
def list? {α : Type} (read? : Json → Option α) : Json → Option (List α)
  | array items => items.mapM read?
  | _ => none

variable {α : Type} {members : List (String × Json)} {name : String} {value : Json}

/-- The names of an object that was built from plain names are read back. -/
theorem named?_ofMembers (members : List (String × Json)) :
    (ofMembers members).named? = some members := by
  have hname (name : String) : text? (string (escape name)) = some name := text?_ofText name
  change (members.map fun m => (escape m.1, m.2)).mapM _ = some members
  rw [List.mapM_map]
  induction members with
  | nil => rfl
  | cons m members ih => simp [hname, ih]

/-- A name that comes once in what an object was built from has its value there. -/
theorem field?_ofMembers (h : members.filter (·.1 == name) = [(name, value)]) :
    (ofMembers members).field? name = some value := by
  rw [field?, named?_ofMembers, Option.bind_some, Token.member?, h]

/-- A member that was put in if there was something to write is read as what there was. -/
theorem optional?_ofMembers {x? : Option α} (read? : Json → Option α) (write : α → Json)
    (hread : ∀ x, read? (write x) = some x)
    (h : members.filter (·.1 == name) = x?.toList.map fun x => (name, write x)) :
    (ofMembers members).optional? read? name = some x? := by
  rw [optional?, named?_ofMembers]
  cases x? <;> simp [h, hread]

/-- The items of an array are read back one by one. -/
theorem list?_array {β : Type} {f : β → α} (read? : Json → Option α) (write : β → Json)
    (hread : ∀ x, read? (write x) = some (f x)) (xs : List β) :
    (array (xs.map write)).list? read? = some (xs.map f) := by
  have hwritten : read? ∘ write = fun x => pure (f x) := funext hread
  rw [list?, List.mapM_map, hwritten, List.mapM_pure]
  rfl

end ScalaLex.Json
