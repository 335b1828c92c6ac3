import Mathlib.Data.List.Induction
import Mathlib.Data.List.Infix
import Mathlib.Data.List.Nodup
import ScalaLex.Log.Event

/-!
# The pairs that an event keeps

An event that is given pairs one after the other keeps the first `Pairs.limit` different names
(`Pairs.names`), each with the value that it was given last (`Pairs.last?`). A pair that comes is
put in just if its name is one of the first names up to it, the new one included
(`Pairs.Holds.room_iff`). So a name that is kept stays and takes every later value, and a name that
was dropped is dropped again whenever it comes (`Event.context_withPairs`).
-/

namespace ScalaLex

namespace Pairs

variable {ps : Pairs} {given : List (String × String)} {p : String × String}
  {k v key value : String}

/-- The names of pairs, in the order in which they come first. -/
def names (given : List (String × String)) : List String := (given.map (·.1)).eraseDups

/-- The value of the last pair with a name. -/
def last? (given : List (String × String)) (key : String) : Option String :=
  given.reverse.lookup key

/-- The names increase. -/
def IsOrdered (ps : Pairs) : Prop := ps.Pairwise fun p q => Text.precedes p.1 q.1 = true

theorem lookup_cons (name v k : String) (ps : List (String × String)) :
    ((name, v) :: ps).lookup k = if k = name then some v else ps.lookup k := by
  rw [List.lookup_cons]
  by_cases h : k = name
  · simp [h]
  · rw [beq_eq_false_iff_ne.2 h, if_neg h]

/-! ## Pairs that were given -/

/-- A name that was given before adds none. -/
theorem names_concat (given : List (String × String)) (key value : String) :
    names (given ++ [(key, value)]) =
      if key ∈ names given then names given else names given ++ [key] := by
  have hsingle : [key].eraseDups = [key] := rfl
  rw [names, List.map_append, List.eraseDups_append]
  by_cases h : key ∈ given.map (·.1)
  · simp [names, List.removeAll, h]
  · simp [names, List.removeAll, h, hsingle]

/-- Pairs that come later do not change which names were first. -/
theorem isPrefix_names (given after : List (String × String)) :
    names given <+: names (given ++ after) := by
  rw [names, names, List.map_append, List.eraseDups_append]
  exact List.prefix_append _ _

theorem nodup_names (given : List (String × String)) : (names given).Nodup := by
  induction given using List.reverseRecOn with
  | nil => exact List.nodup_nil
  | append_singleton given p ih =>
    rw [names_concat]
    split
    · exact ih
    · rename_i hnew
      rw [← List.concat_eq_append]
      exact ih.concat hnew

/-- A name has the value that came last with it. -/
theorem last?_concat (given : List (String × String)) (key value k : String) :
    last? (given ++ [(key, value)]) k = if k = key then some value else last? given k := by
  rw [last?, List.reverse_append, List.reverse_singleton, List.singleton_append, lookup_cons, last?]

theorem exists_last? (h : k ∈ names given) : ∃ value, last? given k = some value := by
  rw [names, List.mem_eraseDups] at h
  obtain ⟨p, hp, rfl⟩ := List.mem_map.1 h
  exact Option.isSome_iff_exists.1
    (List.lookup_isSome_iff.2 ⟨p, List.mem_reverse.2 hp, beq_self_eq_true _⟩)

/-- The first names up to a pair differ from those before it by the name of the pair at most. -/
theorem mem_take_names_concat (h : k ≠ key) (value : String) :
    k ∈ (names (given ++ [(key, value)])).take limit ↔ k ∈ (names given).take limit := by
  rw [names_concat]
  split
  · rfl
  · rw [List.take_append, List.mem_append, or_iff_left]
    exact fun hk => h (List.mem_singleton.1 (List.mem_of_mem_take hk))

/-- The name of a pair is one of the first up to it if it was one before, or if it is new and there
are not as many yet. -/
theorem mem_take_names_concat_self (given : List (String × String)) (key value : String) :
    key ∈ (names (given ++ [(key, value)])).take limit ↔
      (names given).length < limit ∨ key ∈ (names given).take limit := by
  rw [names_concat]
  rcases Nat.lt_or_ge (names given).length limit with hroom | hfull
  · refine iff_of_true ?_ (Or.inl hroom)
    split
    · rename_i hold
      rwa [List.take_of_length_le (Nat.le_of_lt hroom)]
    · rw [List.take_of_length_le (by rw [List.length_append]; exact hroom)]
      exact List.mem_append_right _ (List.mem_singleton_self key)
  · rw [or_iff_right (Nat.not_lt.2 hfull)]
    split
    · rfl
    · rw [List.take_append_of_le_length hfull]

/-! ## Pairs that are kept -/

/-- Putting a pair in changes the value of its name only. -/
theorem lookup_insert (key value : String) (ps : Pairs) (k : String) :
    (insert key value ps).lookup k = if k = key then some value else ps.lookup k := by
  induction ps with
  | nil => exact lookup_cons key value k []
  | cons p ps ih =>
    obtain ⟨name, v⟩ := p
    rw [insert]
    split
    · rw [lookup_cons]
    split
    · rename_i hsame
      rw [lookup_cons, lookup_cons, ← beq_iff_eq.1 hsame]
      split <;> rfl
    · rename_i hother
      have hne : key ≠ name := by simpa using hother
      rw [lookup_cons, lookup_cons, ih]
      by_cases hk : k = key
      · rw [if_pos hk, if_pos hk, if_neg (hk ▸ hne)]
      · rw [if_neg hk, if_neg hk]

theorem fst_of_mem_insert (h : p ∈ insert key value ps) : p.1 = key ∨ p ∈ ps := by
  induction ps with
  | nil => exact Or.inl (congrArg Prod.fst (List.mem_singleton.1 h))
  | cons q ps ih =>
    obtain ⟨name, v⟩ := q
    rw [insert] at h
    split at h
    · exact (List.mem_cons.1 h).imp_left (congrArg Prod.fst)
    split at h
    · exact (List.mem_cons.1 h).imp (congrArg Prod.fst) (List.mem_cons_of_mem _)
    · rcases List.mem_cons.1 h with rfl | h
      · exact Or.inr List.mem_cons_self
      · exact (ih h).imp_right (List.mem_cons_of_mem _)

/-- A pair is put in where it keeps the order. -/
theorem IsOrdered.insert (h : IsOrdered ps) (key value : String) :
    IsOrdered (insert key value ps) := by
  induction ps with
  | nil => exact List.pairwise_singleton _ _
  | cons p ps ih =>
    obtain ⟨name, v⟩ := p
    obtain ⟨hfirst, hrest⟩ := List.pairwise_cons.1 h
    rw [Pairs.insert]
    split
    · rename_i hbefore
      refine List.pairwise_cons.2 ⟨List.forall_mem_cons.2 ⟨hbefore, fun p hp => ?_⟩, h⟩
      exact Text.precedes_trans hbefore (hfirst p hp)
    rename_i hnot
    split
    · rename_i hsame
      rw [beq_iff_eq.1 hsame]
      exact List.pairwise_cons.2 ⟨hfirst, hrest⟩
    · rename_i hother
      have hbefore : Text.precedes name key = true :=
        (Text.precedes_or_precedes (by simpa using hother)).resolve_left hnot
      refine List.pairwise_cons.2 ⟨fun p hp => ?_, ih hrest⟩
      rcases fst_of_mem_insert hp with heq | hp
      · rw [heq]
        exact hbefore
      · exact hfirst p hp

/-- In order no name comes twice. -/
theorem IsOrdered.nodup (h : IsOrdered ps) : (ps.map (·.1)).Nodup := by
  refine List.pairwise_map.2 (List.Pairwise.imp (fun {p q} hpq heq => ?_) h)
  rw [heq, Text.not_precedes_self] at hpq
  cases hpq

/-- Ordered pairs have one value for a name. -/
theorem IsOrdered.mem_iff (h : IsOrdered ps) : (k, v) ∈ ps ↔ ps.lookup k = some v := by
  induction ps with
  | nil => simp
  | cons p ps ih =>
    obtain ⟨name, v'⟩ := p
    have hnodup := h.nodup
    rw [List.map_cons, List.nodup_cons] at hnodup
    rw [lookup_cons, List.mem_cons, Prod.mk.injEq, ih (List.pairwise_cons.1 h).2]
    by_cases hk : k = name
    · subst hk
      have hlater : ps.lookup k ≠ some v := fun hv => hnodup.1
        (List.mem_map.2 ⟨(k, v), (ih (List.pairwise_cons.1 h).2).2 hv, rfl⟩)
      rw [if_pos rfl, or_iff_left hlater]
      simp [eq_comm]
    · simp [hk]

theorem hasKey_iff : hasKey ps key = true ↔ key ∈ ps.map (·.1) := by
  simp [hasKey]

/-! ## The first names -/

/-- Ordered pairs have the first names of those that were given, with the last values. -/
structure Holds (ps : Pairs) (given : List (String × String)) : Prop where
  ordered : IsOrdered ps
  lookup : ∀ k, ps.lookup k = if k ∈ (names given).take limit then last? given k else none

/-- The names that are kept are the first ones that were given. -/
theorem Holds.mem_keys_iff (h : ps.Holds given) :
    k ∈ ps.map (·.1) ↔ k ∈ (names given).take limit := by
  have hsome : k ∈ ps.map (·.1) ↔ ∃ v, ps.lookup k = some v := by
    simp [← h.ordered.mem_iff]
  rw [hsome, h.lookup]
  split
  · rename_i hfirst
    exact iff_of_true (exists_last? (List.mem_of_mem_take hfirst)) hfirst
  · rename_i hnot
    exact iff_of_false nofun hnot

theorem Holds.perm (h : ps.Holds given) : (ps.map (·.1)).Perm ((names given).take limit) :=
  (List.perm_ext_iff_of_nodup h.ordered.nodup
    ((List.take_sublist _ _).nodup (nodup_names given))).2 fun _ => h.mem_keys_iff

theorem Holds.length_eq (h : ps.Holds given) : ps.length = min limit (names given).length := by
  rw [← List.length_map (f := Prod.fst), h.perm.length_eq, List.length_take]

/-- A pair is put in just if its name is one of the first names up to it. -/
theorem Holds.room_iff (h : ps.Holds given) (key value : String) :
    (ps.length < limit || hasKey ps key) = true ↔
      key ∈ (names (given ++ [(key, value)])).take limit := by
  rw [mem_take_names_concat_self, Bool.or_eq_true, decide_eq_true_iff, hasKey_iff, h.mem_keys_iff,
    h.length_eq]
  refine or_congr_left ?_
  omega

/-- Adding a pair keeps the first names with their last values. -/
theorem Holds.add (h : ps.Holds given) (key value : String) :
    (ps.add key value).Holds (given ++ [(key, value)]) := by
  have hroom := h.room_iff key value
  have hother : ∀ k, k ≠ key → (ps.lookup k =
      if k ∈ (names (given ++ [(key, value)])).take limit then last? (given ++ [(key, value)]) k
      else none) := by
    intro k hk
    rw [h.lookup, last?_concat, if_neg hk]
    simp only [mem_take_names_concat hk]
  rw [Pairs.add]
  split
  · rename_i hput
    refine ⟨h.ordered.insert key value, fun k => ?_⟩
    rw [lookup_insert]
    split
    · rename_i hk
      rw [hk, if_pos (hroom.1 hput), last?_concat, if_pos rfl]
    · rename_i hk
      exact hother k hk
  · rename_i hdropped
    refine ⟨h.ordered, fun k => ?_⟩
    by_cases hk : k = key
    · rw [hk, if_neg (mt hroom.2 hdropped), h.lookup, if_neg]
      exact fun hfirst => hdropped (hroom.2 ((mem_take_names_concat_self _ _ _).2 (Or.inr hfirst)))
    · exact hother k hk

end Pairs

namespace Event

open Pairs

theorem withPairs_concat (e : Event) (given : List (String × String)) (key value : String) :
    e.withPairs (given ++ [(key, value)]) = (e.withPairs given).withPair key value := by
  rw [withPairs, List.foldl_append]
  rfl

/-- An event without pairs that is given some keeps the first names with their last values. -/
theorem holds_withPairs (e : Event) (given : List (String × String)) :
    Holds ({ e with context := [] }.withPairs given).context given := by
  induction given using List.reverseRecOn with
  | nil => exact ⟨.nil, fun _ => rfl⟩
  | append_singleton given p ih =>
    rw [withPairs_concat]
    exact ih.add p.1 p.2

/-- An event without pairs that is given pairs one after the other has the first names of them, all
or as many as there is room for, each once and with the value that it was given last. A name that is
there stays, and takes the value of every pair that comes with it. -/
theorem context_withPairs (e : Event) (given : List (String × String)) :
    let context (given : List (String × String)) :=
      ({ e with context := [] }.withPairs given).context
    let kept := (names given).take limit
    ((context given).map (·.1)).Perm kept ∧ IsOrdered (context given) ∧
    (context given).length = min limit (names given).length ∧
    (∀ key value, (key, value) ∈ context given ↔ key ∈ kept ∧ last? given key = some value) ∧
    (∀ after, ∀ key ∈ (context given).map (·.1), key ∈ (context (given ++ after)).map (·.1)) ∧
    ∀ key ∈ (context given).map (·.1), ∀ value,
      (key, value) ∈ context (given ++ [(key, value)]) := by
  intro context kept
  have hholds : ∀ given, Holds (context given) given := holds_withPairs e
  have hmem : ∀ given key value, (key, value) ∈ context given ↔
      key ∈ (names given).take limit ∧ last? given key = some value := by
    intro given key value
    rw [(hholds given).ordered.mem_iff, (hholds given).lookup]
    split <;> simp [*]
  have hstays : ∀ after, ∀ key ∈ (context given).map (·.1),
      key ∈ (context (given ++ after)).map (·.1) := by
    intro after key hkey
    rw [(hholds _).mem_keys_iff] at hkey ⊢
    exact (List.IsPrefix.take (isPrefix_names given after) limit).subset hkey
  refine ⟨(hholds given).perm, (hholds given).ordered, (hholds given).length_eq, hmem given, hstays,
    fun key hkey value => ?_⟩
  refine (hmem _ key value).2 ⟨(hholds _).mem_keys_iff.1 (hstays _ key hkey), ?_⟩
  rw [last?_concat, if_pos rfl]

/-- Of forty names eight are dropped, and one of these is dropped again. -/
example :
    let given := (List.range 40).map (fun n => (toString n, "old")) ++ [("7", "new"), ("35", "new")]
    let context := ((Event.info "many").withPairs given).context
    context.length = 32 ∧ context.lookup "7" = some "new" ∧ context.lookup "31" = some "old" ∧
      context.lookup "35" = none := by
  decide +kernel

end Event

end ScalaLex
