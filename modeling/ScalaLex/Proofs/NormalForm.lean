import Mathlib.Data.List.Chain
import ScalaLex.Proofs.JoinedLists

/-!
# Joined lists are a normal form

What a joined list is can be said without the fold that makes it. It has one token for each of
consecutive blocks of the list it was made from (`JoinedFrom`), and no two of its neighbours are
operators unless the first is hard punctuation (`Apart`). A block stops as soon as its text is
hard punctuation, so a list is cut in one way only (`tokens_joinOperators_flatten`), and joining
is what gives that cut (`isChain_joinOperators`).

A list whose neighbours are apart is cut into single tokens, so it is joined already
(`tokens_joinOperators_of_isChain`). `joinOperators_normal_form` puts this together with what
joining leaves as it was : the text of the list and its tokens that are no operators.
-/

namespace ScalaLex

variable {block ts out before after : List Token} {blocks : List (List Token)} {t next : Token}

/-! ## Blocks and neighbours -/

/-- The token that a block of tokens is joined into. A token that is no operator is a block of
its own, and a block goes on only as long as its text is not hard punctuation. -/
structure JoinedFrom (block : List Token) (t : Token) : Prop where
  line : ∃ first others, block = first :: others ∧ t.line = first.line
  value : t.value = String.join (block.map Token.value)
  kind : ∀ u ∈ block, u.kind = t.kind
  alone : t.kind ≠ .operator → block = [t]
  goesOn : ∀ before next after, block = before ++ next :: after → before ≠ [] →
    isHardPunctuation (String.join (before.map Token.value)) = false

/-- Neighbours that are not joined. -/
def Apart (t next : Token) : Prop :=
  t.kind = .operator → next.kind = .operator → isHardPunctuation t.value = true

theorem joins_eq_false_iff : Joined.joins t next = false ↔ Apart t next := by
  simp only [Joined.joins, Token.isOperator, Apart, Bool.and_eq_false_iff, beq_eq_false_iff_ne,
    Bool.not_eq_false']
  tauto

theorem joins_eq_true_iff : Joined.joins t next = true ↔
    t.kind = .operator ∧ next.kind = .operator ∧ isHardPunctuation t.value = false := by
  simp [Joined.joins, Token.isOperator, and_assoc]

namespace Block

theorem goesOn (h : Block block t) (hb : block = before ++ next :: after) (hne : before ≠ []) :
    isHardPunctuation (String.join (before.map Token.value)) = false := by
  induction h generalizing next after with
  | single t =>
    have hlen := congrArg List.length hb
    have hpos := List.length_pos_iff.2 hne
    simp only [List.length_append, List.length_cons, List.length_nil] at hlen
    omega
  | @absorb block t u hblock hjoins ih =>
    rcases List.eq_nil_or_concat' after with rfl | ⟨after, v, rfl⟩
    · -- the last token was taken in by what the tokens before it were joined into
      obtain ⟨rfl, -⟩ := List.append_inj' hb rfl
      rw [← hblock.value_eq]
      exact (joins_eq_true_iff.1 hjoins).2.2
    · rw [← List.cons_append, ← List.append_assoc] at hb
      exact ih (List.append_inj' hb rfl).1

theorem joinedFrom (h : Block block t) : JoinedFrom block t where
  line := h.exists_line
  value := h.value_eq
  kind := h.kind_eq
  alone := fun hkind => h.eq_singleton_or_operator.resolve_right hkind
  goesOn := fun _ _ _ => h.goesOn

end Block

namespace JoinedFrom

/-- A block of a single token is joined into that token. -/
theorem eq_of_singleton (h : JoinedFrom [next] t) : t = next := by
  obtain ⟨first, others, hfirst, hline⟩ := h.line
  obtain ⟨rfl, -⟩ := List.cons.inj hfirst
  have hvalue : t.value = next.value := by simpa using h.value
  have hkind := h.kind next List.mem_cons_self
  cases t
  cases next
  simp_all

/-- What a block but for its last token is joined into takes in that token. -/
theorem exists_absorb (h : JoinedFrom (before ++ [next]) t) (hne : before ≠ []) :
    ∃ u, JoinedFrom before u ∧ Joined.joins u next = true ∧ t = u.absorb next := by
  have hoperator : t.kind = .operator := by
    by_contra hkind
    have hlen := congrArg List.length (h.alone hkind)
    have hpos := List.length_pos_iff.2 hne
    simp only [List.length_append, List.length_cons, List.length_nil] at hlen
    omega
  have hvalue : t.value = String.join (before.map Token.value) ++ next.value := by
    rw [h.value, List.map_append, String.join_append]
    simp
  have hnext : next.kind = .operator := by
    rw [h.kind next (by simp), hoperator]
  have hhard := h.goesOn before next [] rfl hne
  refine ⟨{ t with value := String.join (before.map Token.value) }, ⟨?_, rfl, ?_, ?_, ?_⟩,
    joins_eq_true_iff.2 ⟨hoperator, hnext, hhard⟩, ?_⟩
  · obtain ⟨first, others, hfirst, hline⟩ := h.line
    obtain ⟨u, us, rfl⟩ := List.exists_cons_of_ne_nil hne
    exact ⟨u, us, rfl, hline.trans (congrArg Token.line (List.cons.inj hfirst).1.symm)⟩
  · exact fun u hu => h.kind u (List.mem_append_left _ hu)
  · exact fun hkind => absurd hoperator hkind
  · rintro first u others rfl
    exact h.goesOn first u (others ++ [next]) (by simp)
  · rw [Token.absorb, ← hvalue]

theorem toBlock (h : JoinedFrom block t) : Block block t := by
  induction block using List.reverseRecOn generalizing t with
  | nil =>
    obtain ⟨first, others, hfirst, -⟩ := h.line
    cases hfirst
  | append_singleton before next ih =>
    rcases eq_or_ne before [] with rfl | hne
    · rw [h.eq_of_singleton]
      exact .single next
    · obtain ⟨u, hu, hjoins, rfl⟩ := h.exists_absorb hne
      exact (ih hu).absorb hjoins

end JoinedFrom

/-! ## The cut of a list -/

namespace Joined

variable {j : Joined}

/-- One more token is apart from the one before it, or is taken in by it. -/
theorem isChain_push (h : j.reversed.IsChain fun next t => Apart t next) (t : Token) :
    (j.push t).reversed.IsChain fun next t => Apart t next := by
  cases hj : j.reversed with
  | nil =>
    rw [push_of_not_joins (by simp [hj]), hj]
    exact .singleton t
  | cons last done =>
    cases hjoins : joins last t with
    | true =>
      rw [push_of_joins hj hjoins]
      rw [hj] at h
      -- of the token behind it, a token sees the kind only
      cases done with
      | nil => exact .singleton _
      | cons u done =>
        rw [List.isChain_cons_cons] at h ⊢
        exact ⟨h.1, h.2⟩
    | false =>
      rw [push_of_not_joins (by simpa [hj] using hjoins)]
      dsimp only
      rw [hj] at h ⊢
      exact List.isChain_cons_cons.2 ⟨joins_eq_false_iff.1 hjoins, h⟩

end Joined

/-- In a joined list, no operator is followed by an operator that it takes in. -/
theorem isChain_joinOperators (ts : List Token) : (joinOperators ts).tokens.IsChain Apart := by
  suffices h : ∀ j : Joined, (j.reversed.IsChain fun next t => Apart t next) →
      (ts.foldl Joined.push j).reversed.IsChain fun next t => Apart t next from
    List.isChain_reverse.2 (h {} .nil)
  induction ts with
  | nil => exact fun j h => h
  | cons t ts ih => exact fun j h => ih (j.push t) (Joined.isChain_push h t)

theorem reversed_joinOperators_block (h : Block block t) : (joinOperators block).reversed = [t] := by
  induction h with
  | single t => rfl
  | absorb _ hjoins ih =>
    rw [joinOperators, List.foldl_append]
    exact congrArg Joined.reversed (Joined.push_of_joins ih hjoins)

/-- Blocks whose tokens are apart are the blocks in which their tokens are joined. -/
theorem tokens_joinOperators_flatten (h : List.Forall₂ Block blocks out) (hout : out.IsChain Apart) :
    (joinOperators blocks.flatten).tokens = out := by
  induction h with
  | nil => rfl
  | @cons block t blocks out hblock hblocks ih =>
    have hfirst : (joinOperators block).tokens = [t] := by
      rw [Joined.tokens, reversed_joinOperators_block hblock, List.reverse_singleton]
    have hapart : ∀ last ∈ (joinOperators block).tokens.getLast?,
        ∀ next ∈ blocks.flatten.head?, Joined.joins last next = false := by
      rw [hfirst]
      rintro last ⟨⟩ next hnext
      cases hblocks with
      | nil => cases hnext
      | @cons block' u blocks out hblock' hblocks =>
        obtain ⟨first, others, rfl, -⟩ := hblock'.exists_line
        obtain rfl : first = next := Option.some.inj hnext
        have hkind := hblock'.kind_eq first List.mem_cons_self
        have hu := (List.isChain_cons_cons.1 hout).1
        exact joins_eq_false_iff.2 fun ht hoperator => hu ht (hkind ▸ hoperator)
    rw [List.flatten_cons, joinOperators_append hapart, Joined.tokens_after, hfirst,
      ih hout.tail, List.singleton_append]

/-- A list whose neighbours are apart is joined already. -/
theorem tokens_joinOperators_of_isChain (h : ts.IsChain Apart) : (joinOperators ts).tokens = ts := by
  have hsingle : List.Forall₂ Block (ts.map fun t => [t]) ts := by
    rw [List.forall₂_map_left_iff, List.forall₂_same]
    exact fun t _ => .single t
  have hjoined := tokens_joinOperators_flatten hsingle h
  rwa [← List.flatMap_def, List.flatMap_singleton'] at hjoined

/-! ## What joining leaves as it was -/

/-- Tokens that are no operators are blocks of their own. -/
theorem filter_not_operator (h : List.Forall₂ Block blocks out) :
    out.filter (·.kind != .operator) = blocks.flatten.filter (·.kind != .operator) := by
  induction h with
  | nil => rfl
  | @cons block t blocks out hblock _ ih =>
    rw [List.flatten_cons, List.filter_append, ← ih, ← List.singleton_append, List.filter_append]
    congr 1
    by_cases hkind : t.kind = .operator
    · have hblock' : ∀ u ∈ block, ¬(u.kind != .operator) = true := by
        intro u hu
        simp [hblock.kind_eq u hu, hkind]
      rw [List.filter_eq_nil_iff.2 hblock']
      simp [hkind]
    · rw [hblock.eq_singleton_or_operator.resolve_right hkind]

theorem join_value (h : List.Forall₂ Block blocks out) :
    String.join (out.map Token.value) = String.join (blocks.flatten.map Token.value) := by
  induction h with
  | nil => rfl
  | cons hblock _ ih =>
    rw [List.flatten_cons, List.map_append, String.join_append, ← ih, ← hblock.value_eq,
      List.map_cons, String.join_cons]

/-- The joined list is the one list of tokens that are apart and are each joined from one of
consecutive blocks of the tokens. Joining keeps the text of the list and its tokens that are no
operators, counts every token that it takes in, and leaves a joined list as it is. -/
theorem joinOperators_normal_form (ts : List Token) :
    let joined := joinOperators ts
    (∀ out, out = joined.tokens ↔
      (∃ blocks, blocks.flatten = ts ∧ List.Forall₂ JoinedFrom blocks out) ∧ out.IsChain Apart) ∧
    String.join (joined.tokens.map Token.value) = String.join (ts.map Token.value) ∧
    joined.tokens.filter (·.kind != .operator) = ts.filter (·.kind != .operator) ∧
    ts.length = joined.tokens.length + joined.absorbed ∧
    (joinOperators joined.tokens).tokens = joined.tokens ∧
    (joinOperators joined.tokens).absorbed = 0 := by
  intro joined
  obtain ⟨blocks, rfl, hblocks⟩ := exists_blocks ts
  have hchain : joined.tokens.IsChain Apart := isChain_joinOperators blocks.flatten
  have hself := tokens_joinOperators_of_isChain hchain
  refine ⟨fun out => ⟨?_, ?_⟩, join_value hblocks, filter_not_operator hblocks,
    (length_joinOperators _).symm, hself, ?_⟩
  · rintro rfl
    exact ⟨⟨blocks, rfl, hblocks.imp fun _ _ h => h.joinedFrom⟩, hchain⟩
  · rintro ⟨⟨parts, hflat, hparts⟩, hout⟩
    rw [← tokens_joinOperators_flatten (hparts.imp fun _ _ h => h.toBlock) hout, hflat]
  · have hlength := length_joinOperators joined.tokens
    rw [hself] at hlength
    omega

/-- A bracket takes nothing in when it comes first, and is taken in behind an operator. -/
example : (joinOperators [⟨.operator, "(", 1⟩, ⟨.operator, "+", 1⟩, ⟨.operator, "(", 2⟩,
    ⟨.operator, "=", 2⟩]).tokens = [⟨.operator, "(", 1⟩, ⟨.operator, "+(=", 1⟩] := by decide

end ScalaLex
