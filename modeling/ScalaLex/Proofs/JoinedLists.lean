import ScalaLex.Proofs.OperatorBlocks

/-!
# Joining one list behind another

Joining operators looks back at the last joined token only. Where that token does not take
in the first token of the list that follows, the two lists are joined each on its own
(`joinOperators_append`). However a list goes on, its joined tokens but the last stay as
they are (`tail_suffix_foldl_push`), and so it is when the last token of a list is put
aside before the list goes on, unless an operator comes where there was none
(`dropLast_joinOperators_prefix`).

Joining looks at no line, so it can be done before or after all tokens are moved down
(`joinOperators_map_shift`), and of the two tokens that meet it looks at the kinds and at the
text of the first (`tokens_joinOperators_append_shift`).
-/

namespace ScalaLex

/-- The token `k` lines further down. -/
def Token.shift (k : UInt32) (t : Token) : Token := { t with line := t.line + k }

variable {ts us : List Token} {t : Token}

namespace Joined

/-- A joined list behind another one. -/
def after (older j : Joined) : Joined :=
  ⟨j.reversed ++ older.reversed, j.absorbed + older.absorbed⟩

variable {j older : Joined}

theorem tokens_after (older j : Joined) : (older.after j).tokens = older.tokens ++ j.tokens :=
  List.reverse_append

theorem getLast?_tokens (j : Joined) : j.tokens.getLast? = j.reversed.head? :=
  List.getLast?_reverse

theorem push_of_joins {last : Token} {done : List Token} (hj : j.reversed = last :: done)
    (h : joins last t = true) : j.push t = ⟨last.absorb t :: done, j.absorbed + 1⟩ := by
  rw [push, hj]
  exact if_pos h

theorem push_of_not_joins (h : ∀ last ∈ j.reversed.head?, joins last t = false) :
    j.push t = ⟨t :: j.reversed, j.absorbed⟩ := by
  rw [push]
  split
  · rename_i last done hj
    rw [hj] at h ⊢
    rw [if_neg (Bool.eq_false_iff.1 (h last rfl))]
  · rename_i hj
    rw [hj]

/-- Only the last joined token is looked at. -/
theorem push_after (h : j.reversed ≠ []) (older : Joined) (t : Token) :
    (older.after j).push t = older.after (j.push t) := by
  obtain ⟨last, done, hj⟩ := List.exists_cons_of_ne_nil h
  have hafter : (older.after j).reversed = last :: (done ++ older.reversed) := by
    rw [after, hj, List.cons_append]
  cases hjoins : joins last t with
  | true =>
    rw [push_of_joins hj hjoins, push_of_joins hafter hjoins, after, after, Nat.add_right_comm,
      List.cons_append]
  | false =>
    have hnot : ∀ l ∈ some last, joins l t = false := by
      rintro l ⟨⟩
      exact hjoins
    rw [push_of_not_joins (by rwa [hafter]), push_of_not_joins (by rwa [hj])]
    rfl

theorem push_reversed_ne_nil (j : Joined) (t : Token) : (j.push t).reversed ≠ [] := by
  unfold push
  split
  · split <;> exact List.cons_ne_nil _ _
  · exact List.cons_ne_nil _ _

theorem foldl_push_after (h : j.reversed ≠ []) (older : Joined) (us : List Token) :
    us.foldl push (older.after j) = older.after (us.foldl push j) := by
  induction us generalizing j with
  | nil => rfl
  | cons u us ih =>
    rw [List.foldl_cons, List.foldl_cons, push_after h, ih (push_reversed_ne_nil j u)]

/-- All joined tokens but the last are settled. -/
theorem tail_suffix_push (j : Joined) (t : Token) :
    j.reversed.tail <:+ (j.push t).reversed.tail := by
  unfold push
  split
  · rename_i last done hj
    rw [hj, List.tail_cons]
    split
    · exact List.suffix_refl _
    · exact List.suffix_cons _ _
  · rename_i hj
    rw [hj, List.tail_nil]
    exact List.nil_suffix

theorem tail_suffix_foldl_push (j : Joined) (us : List Token) :
    j.reversed.tail <:+ (us.foldl push j).reversed.tail := by
  induction us generalizing j with
  | nil => exact List.suffix_refl _
  | cons u us ih => exact (tail_suffix_push j u).trans (ih (j.push u))

end Joined

/-! ## Two lists -/

/-- Where the last joined token does not take in the next one, both lists are joined on
their own. -/
theorem joinOperators_append (h : ∀ last ∈ (joinOperators ts).tokens.getLast?,
    ∀ next ∈ us.head?, Joined.joins last next = false) :
    joinOperators (ts ++ us) = (joinOperators ts).after (joinOperators us) := by
  rw [Joined.getLast?_tokens] at h
  have hfold : joinOperators (ts ++ us) = us.foldl Joined.push (joinOperators ts) :=
    List.foldl_append
  rw [hfold]
  cases us with
  | nil => exact congrArg (Joined.mk _) (Nat.zero_add _).symm
  | cons u us =>
    have hpush : (joinOperators ts).push u = (joinOperators ts).after (({} : Joined).push u) := by
      rw [Joined.push_of_not_joins fun last hlast => h last hlast u rfl, Joined.after]
      exact congrArg (Joined.mk _) (Nat.zero_add _).symm
    rw [List.foldl_cons, hpush, Joined.foldl_push_after (Joined.push_reversed_ne_nil _ u)]
    rfl

/-- A token that ends a list is joined into the last token or is the last token, and the
tokens before that one stay, however the list goes on in its place. Where the token is no
operator, no operator may take its place. -/
theorem dropLast_joinOperators_prefix
    (h : t.isOperator = true ∨ ∀ next ∈ us.head?, next.isOperator = false) :
    (joinOperators (ts ++ [t])).tokens.dropLast <+: (joinOperators (ts ++ us)).tokens := by
  have hsnoc : joinOperators (ts ++ [t]) = (joinOperators ts).push t := by
    rw [joinOperators, List.foldl_append]
    rfl
  rw [hsnoc, Joined.tokens, List.dropLast_reverse]
  by_cases hjoins : ∃ last ∈ (joinOperators ts).reversed.head?, Joined.joins last t = true
  · obtain ⟨last, hlast, hlast'⟩ := hjoins
    obtain ⟨done, hdone⟩ := List.head?_eq_some_iff.1 hlast
    have hsuffix := Joined.tail_suffix_foldl_push (joinOperators ts) us
    rw [Joined.push_of_joins hdone hlast', List.tail_cons, joinOperators, List.foldl_append,
      Joined.tokens, List.reverse_prefix]
    rw [hdone, List.tail_cons] at hsuffix
    exact hsuffix.trans (List.tail_suffix _)
  · have hnot : ∀ last ∈ (joinOperators ts).reversed.head?, Joined.joins last t = false :=
      fun last hlast => Bool.eq_false_iff.2 fun hlast' => hjoins ⟨last, hlast, hlast'⟩
    -- what takes in no operator takes in nothing
    have hnext : ∀ last ∈ (joinOperators ts).tokens.getLast?,
        ∀ next ∈ us.head?, Joined.joins last next = false := by
      intro last hlast next hmem
      rw [Joined.getLast?_tokens] at hlast
      have := hnot last hlast
      rcases h with ht | hus
      · simp_all [Joined.joins]
      · simp [Joined.joins, hus next hmem]
    rw [Joined.push_of_not_joins hnot, List.tail_cons, joinOperators_append hnext,
      Joined.tokens_after]
    exact List.prefix_append _ _

/-- Tokens that are there stay, but for the last one, when more tokens come. -/
theorem dropLast_joinOperators_prefix_of_prefix (h : ts <+: us) :
    (joinOperators ts).tokens.dropLast <+: (joinOperators us).tokens := by
  obtain ⟨us, rfl⟩ := h
  rcases List.eq_nil_or_concat' ts with rfl | ⟨ts, t, rfl⟩
  · exact List.nil_prefix
  · rw [List.append_assoc]
    refine dropLast_joinOperators_prefix ?_
    cases ht : t.isOperator with
    | true => exact Or.inl rfl
    | false =>
      refine Or.inr ?_
      rintro next ⟨⟩
      exact ht

/-! ## Tokens further down -/

/-- A joined list with its tokens `k` lines further down. -/
def Joined.shift (k : UInt32) (j : Joined) : Joined :=
  ⟨j.reversed.map (Token.shift k), j.absorbed⟩

theorem Joined.push_shift (k : UInt32) (j : Joined) (t : Token) :
    (j.shift k).push (t.shift k) = (j.push t).shift k := by
  obtain ⟨reversed, absorbed⟩ := j
  cases reversed with
  | nil => rfl
  | cons last done =>
    have hjoins : joins (last.shift k) (t.shift k) = joins last t := rfl
    rw [shift, List.map_cons, push, push]
    dsimp only
    rw [hjoins]
    split <;> rfl

theorem Joined.foldl_push_shift (k : UInt32) (j : Joined) (ts : List Token) :
    (ts.map (Token.shift k)).foldl push (j.shift k) = (ts.foldl push j).shift k := by
  induction ts generalizing j with
  | nil => rfl
  | cons t ts ih => rw [List.map_cons, List.foldl_cons, List.foldl_cons, push_shift, ih]

theorem joinOperators_map_shift (k : UInt32) (ts : List Token) :
    joinOperators (ts.map (Token.shift k)) = (joinOperators ts).shift k :=
  Joined.foldl_push_shift k {} ts

theorem Joined.tokens_shift (k : UInt32) (j : Joined) :
    (j.shift k).tokens = j.tokens.map (Token.shift k) :=
  List.map_reverse.symm

/-- The first joined token has the kind of the first token. -/
theorem exists_head?_joinOperators (ht : t ∈ ts.head?) :
    ∃ first ∈ (joinOperators ts).tokens.head?, t.kind = first.kind := by
  obtain ⟨blocks, hflat, hblocks⟩ := exists_blocks ts
  generalize (joinOperators ts).tokens = joined at hblocks ⊢
  cases hblocks with
  | nil =>
    rw [← hflat] at ht
    cases ht
  | @cons block first blocks others hblock _ =>
    obtain ⟨u, us, rfl, -⟩ := hblock.exists_line
    rw [← hflat] at ht
    obtain rfl : u = t := Option.some.inj ht
    exact ⟨first, by simp, hblock.kind_eq u List.mem_cons_self⟩

/-- Where no operator meets one that takes it in, both lists are joined on their own. -/
theorem tokens_joinOperators_append_shift (k : UInt32)
    (h : ∀ last ∈ (joinOperators ts).tokens.getLast?, ∀ next ∈ (joinOperators us).tokens.head?,
      last.kind ≠ .operator ∨ isHardPunctuation last.value = true ∨ next.kind ≠ .operator) :
    (joinOperators (ts ++ us.map (Token.shift k))).tokens =
      (joinOperators ts).tokens ++ (joinOperators us).tokens.map (Token.shift k) := by
  have hapart : ∀ last ∈ (joinOperators ts).tokens.getLast?,
      ∀ next ∈ (us.map (Token.shift k)).head?, Joined.joins last next = false := by
    intro last hlast next hnext
    rw [List.head?_map] at hnext
    obtain ⟨t, ht, rfl⟩ := Option.map_eq_some_iff.1 hnext
    obtain ⟨first, hfirst, hkind⟩ := exists_head?_joinOperators ht
    have hnot := h last hlast first hfirst
    rw [← hkind] at hnot
    rw [Joined.joins, Token.isOperator, Token.isOperator, Token.shift]
    rcases hnot with h | h | h <;> simp [h]
  rw [joinOperators_append hapart, Joined.tokens_after, joinOperators_map_shift,
    Joined.tokens_shift]

end ScalaLex
