import Mathlib.Data.List.Forall2
import ScalaLex.Token.Merge

/-!
# Blocks of operators

Joining operators cuts a list of tokens into consecutive blocks and makes one token of each
(`exists_blocks`). A block is a single token, or a block with one more operator that its
token took in. So the token of a block is on the line of the first token of the block
(`Block.exists_line`), its text is the texts of the block one after the other
(`Block.value_eq`), and it has the kind of each of them (`Block.kind_eq`).
-/

namespace ScalaLex

/-- The tokens of a block, and the token that they are joined into. -/
inductive Block : List Token → Token → Prop
  | single (t : Token) : Block [t] t
  | absorb {block : List Token} {t next : Token} : Block block t → Joined.joins t next = true →
      Block (block ++ [next]) (t.absorb next)

namespace Block

variable {block : List Token} {t next : Token} {blocks : List (List Token)} {ts : List Token}

theorem isOperator_of_joins (h : Joined.joins t next = true) :
    t.isOperator = true ∧ next.isOperator = true := by
  rw [Joined.joins, Bool.and_eq_true, Bool.and_eq_true] at h
  exact h.1

/-- The token of a block is on the line of the first one. -/
theorem exists_line (h : Block block t) :
    ∃ first others, block = first :: others ∧ t.line = first.line := by
  induction h with
  | single t => exact ⟨t, [], rfl, rfl⟩
  | @absorb block t next _ _ ih =>
    obtain ⟨first, others, rfl, hline⟩ := ih
    exact ⟨first, others ++ [next], rfl, hline⟩

theorem value_eq (h : Block block t) : t.value = String.join (block.map Token.value) := by
  induction h with
  | single t => simp
  | absorb _ _ ih => simp [Token.absorb, ih, String.join_append]

theorem kind_eq (h : Block block t) : ∀ u ∈ block, u.kind = t.kind := by
  induction h with
  | single t => simp
  | @absorb block t next _ hjoins ih =>
    obtain ⟨ht, hnext⟩ := isOperator_of_joins hjoins
    rw [Token.isOperator, beq_iff_eq] at ht hnext
    intro u hu
    rcases List.mem_append.1 hu with hu | hu
    · exact ih u hu
    · rw [List.mem_singleton.1 hu, hnext]
      exact ht.symm

/-- Only operators make up a block of several tokens. -/
theorem eq_singleton_or_operator (h : Block block t) : block = [t] ∨ t.kind = .operator := by
  cases h with
  | single t => exact Or.inl rfl
  | absorb _ hjoins =>
    have ht := (isOperator_of_joins hjoins).1
    rw [Token.isOperator, beq_iff_eq] at ht
    exact Or.inr ht

/-- The lines of the joined tokens are among those of the tokens, in the same order. -/
theorem lines_sublist (h : List.Forall₂ Block blocks ts) :
    (ts.map Token.line).Sublist (blocks.flatten.map Token.line) := by
  induction h with
  | nil => exact List.Sublist.refl _
  | cons hblock _ ih =>
    obtain ⟨first, others, rfl, hline⟩ := hblock.exists_line
    rw [List.map_cons, hline, List.flatten_cons, List.cons_append, List.map_cons, List.map_append]
    exact (ih.trans (List.sublist_append_right _ _)).cons_cons _

end Block

/-! ## Cutting a list into blocks -/

/-- One more token goes on with the last block or starts a new one. -/
theorem Joined.exists_blocks_push {j : Joined} {done : List (List Token)} (t : Token)
    (h : List.Forall₂ Block done j.reversed) :
    ∃ done', List.Forall₂ Block done' (j.push t).reversed ∧
      done'.reverse.flatten = done.reverse.flatten ++ [t] := by
  unfold push
  split
  · rename_i last before hj
    rw [hj] at h
    obtain ⟨block, older, hblock, holder, rfl⟩ := List.forall₂_cons_right_iff.1 h
    by_cases hjoins : joins last t = true
    · rw [if_pos hjoins]
      exact ⟨(block ++ [t]) :: older, .cons (hblock.absorb hjoins) holder, by simp⟩
    · rw [if_neg hjoins]
      exact ⟨[t] :: block :: older, .cons (.single t) h, by simp⟩
  · rename_i hj
    rw [hj, List.forall₂_nil_right_iff] at h
    exact ⟨[[t]], .cons (.single t) .nil, by simp [h]⟩

/-- Joining operators cuts the tokens into consecutive blocks and makes one token of each. -/
theorem exists_blocks (ts : List Token) : ∃ blocks, blocks.flatten = ts ∧
    List.Forall₂ Block blocks (joinOperators ts).tokens := by
  suffices h : ∀ (j : Joined) (done : List (List Token)), List.Forall₂ Block done j.reversed →
      ∃ done', List.Forall₂ Block done' (ts.foldl Joined.push j).reversed ∧
        done'.reverse.flatten = done.reverse.flatten ++ ts by
    obtain ⟨done, hdone, hflat⟩ := h {} [] .nil
    exact ⟨done.reverse, hflat, List.rel_reverse hdone⟩
  induction ts with
  | nil => exact fun j done h => ⟨done, h, (List.append_nil _).symm⟩
  | cons t ts ih =>
    intro j done h
    obtain ⟨done', h', hflat'⟩ := Joined.exists_blocks_push t h
    obtain ⟨done'', h'', hflat''⟩ := ih (j.push t) done' h'
    refine ⟨done'', h'', ?_⟩
    rw [hflat'', hflat', List.append_assoc, List.singleton_append]

end ScalaLex
