import ScalaLex.Proofs.Constructs
import ScalaLex.Proofs.LineSplits
import ScalaLex.Proofs.NormalForm

/-!
# The figures of a scan balance

Counts are kept kind by kind (`Counts.get_ofTokens`). Joining operators leaves every other token as
it was and takes in one token after the other, so each kind but that of operators keeps its count
(`get_joinOperators_of_ne`), and operators lose as many as were taken in
(`operators_joinOperators`).

The uses of operators are a list in the order of their texts. One more use adds one to the entry of
its text and to no other one (`Usage.get_record`), so in the end each entry is the number of
operators with its text (`Usage.tallies_ofTokens`).

`figures_parse` puts the figures of a scan together, with the constructs of its source. What the
preferences switch off is left out of the figures, and nothing else depends on them.
-/

namespace ScalaLex

variable {ts : List Token} {t : Token} {u : Usage} {operator text : String} {n : Nat}

/-! ## Counts -/

namespace Counts

theorem get_add (a b : Counts) (k : Kind) : (a.add b).get k = a.get k + b.get k := by
  cases k <;> rfl

theorem total_add (a b : Counts) : (a.add b).total = a.total + b.total := by
  simp only [total, add]
  omega

/-- Each kind is counted on its own. -/
theorem get_ofTokens (ts : List Token) (k : Kind) :
    (ofTokens ts).get k = ts.countP fun t => t.kind == k := by
  induction ts with
  | nil => cases k <;> rfl
  | cons t ts ih =>
    have hone : (ofTokens [t]).get k = [t].countP fun t => t.kind == k := by
      obtain ⟨kind, value, line⟩ := t
      cases kind <;> cases k <;> rfl
    rw [← List.singleton_append, ofTokens_append, get_add, List.countP_append, hone, ih]

theorem total_ofTokens (ts : List Token) : (ofTokens ts).total = ts.length := by
  induction ts with
  | nil => rfl
  | cons t ts ih =>
    have hone : (ofTokens [t]).total = 1 := by
      obtain ⟨kind, value, line⟩ := t
      cases kind <;> rfl
    rw [← List.singleton_append, ofTokens_append, total_add, hone, ih, List.length_append]
    rfl

end Counts

/-- Tokens that are no operators are counted as before. -/
theorem get_joinOperators_of_ne {k : Kind} (hk : k ≠ .operator) (ts : List Token) :
    (Counts.ofTokens (joinOperators ts).tokens).get k = (Counts.ofTokens ts).get k := by
  have hfilter : ∀ us : List Token, (us.countP fun t => t.kind == k) =
      (us.filter (·.kind != .operator)).countP fun t => t.kind == k := by
    intro us
    rw [List.countP_filter]
    refine List.countP_congr fun t _ => ?_
    simp only [beq_iff_eq, Bool.and_eq_true, bne_iff_ne, iff_self_and]
    rintro rfl
    exact hk
  obtain ⟨blocks, hflat, hblocks⟩ := exists_blocks ts
  rw [Counts.get_ofTokens, Counts.get_ofTokens, hfilter, hfilter ts, filter_not_operator hblocks,
    hflat]

/-- The operators that are gone are those that were taken in. -/
theorem operators_joinOperators (ts : List Token) : (Counts.ofTokens ts).operators =
    (Counts.ofTokens (joinOperators ts).tokens).operators + (joinOperators ts).absorbed := by
  have hreserved := get_joinOperators_of_ne (k := .reserved) (by decide) ts
  have hidentifiers := get_joinOperators_of_ne (k := .identifier) (by decide) ts
  have hliterals := get_joinOperators_of_ne (k := .literal) (by decide) ts
  have htotal := Counts.total_ofTokens ts
  have htotal' := Counts.total_ofTokens (joinOperators ts).tokens
  have hlength := length_joinOperators ts
  simp only [Counts.get, Counts.total] at *
  omega

/-! ## Uses of operators -/

namespace Usage

/-- The uses of an operator, over all entries with its text. -/
def get (u : Usage) (text : String) : Nat := ((u.filter (·.1 == text)).map Prod.snd).sum

theorem get_cons (o : String) (n : Nat) (u : Usage) (text : String) :
    get ((o, n) :: u) text = (if o = text then n else 0) + u.get text := by
  by_cases h : o = text <;> simp [get, h]

/-- One more use is added to the entry of its text and to no other one. -/
theorem get_record (u : Usage) (operator text : String) :
    (u.record operator).get text = u.get text + if operator = text then 1 else 0 := by
  induction u with
  | nil => rw [record, get_cons, Nat.add_comm]
  | cons e u ih =>
    obtain ⟨o, n⟩ := e
    rw [record]
    split
    · rw [get_cons, Nat.add_comm]
    · split
      · rename_i hsame
        rw [beq_iff_eq] at hsame
        rw [hsame, get_cons, get_cons]
        split <;> omega
      · rw [get_cons, get_cons, ih, Nat.add_assoc]

theorem sum_record (u : Usage) (operator : String) :
    ((u.record operator).map Prod.snd).sum = (u.map Prod.snd).sum + 1 := by
  induction u with
  | nil => rfl
  | cons e u ih =>
    rw [record]
    split_ifs <;> simp only [List.map_cons, List.sum_cons, ih] <;> omega

/-- The entries are in the order of their texts, and none of them is for no use. -/
structure IsOrdered (u : Usage) : Prop where
  sorted : u.Pairwise fun a b => Text.precedes a.1 b.1 = true
  used : ∀ e ∈ u, 0 < e.2

theorem fst_of_mem_record {e : String × Nat} (h : e ∈ u.record operator) :
    e.1 = operator ∨ e.1 ∈ u.map Prod.fst := by
  induction u with
  | nil => exact Or.inl (congrArg Prod.fst (List.mem_singleton.1 h))
  | cons e' u ih =>
    obtain ⟨o, n⟩ := e'
    rw [record] at h
    split at h
    · exact (List.mem_cons.1 h).imp (congrArg Prod.fst) (List.mem_map_of_mem (f := Prod.fst))
    · split at h
      · refine Or.inr ?_
        rcases List.mem_cons.1 h with rfl | h
        · exact List.mem_cons_self
        · exact List.mem_cons_of_mem o (List.mem_map_of_mem h)
      · rcases List.mem_cons.1 h with rfl | h
        · exact Or.inr List.mem_cons_self
        · exact (ih h).imp_right (List.mem_cons_of_mem o)

theorem IsOrdered.record (h : u.IsOrdered) (operator : String) : (u.record operator).IsOrdered := by
  induction u with
  | nil => exact ⟨List.pairwise_singleton _ _, by simp [Usage.record]⟩
  | cons e u ih =>
    obtain ⟨o, n⟩ := e
    obtain ⟨hsorted, hused⟩ := h
    obtain ⟨hfirst, hsorted'⟩ := List.pairwise_cons.1 hsorted
    rw [List.forall_mem_cons] at hused
    rw [Usage.record]
    split
    · rename_i hbefore
      refine ⟨List.pairwise_cons.2 ⟨?_, hsorted⟩, ?_⟩
      · exact List.forall_mem_cons.2
          ⟨hbefore, fun a ha => Text.precedes_trans hbefore (hfirst a ha)⟩
      · exact List.forall_mem_cons.2 ⟨Nat.one_pos, List.forall_mem_cons.2 hused⟩
    · split
      · exact ⟨List.pairwise_cons.2 ⟨hfirst, hsorted'⟩,
          List.forall_mem_cons.2 ⟨Nat.succ_pos n, hused.2⟩⟩
      · rename_i hnot hne
        have hbefore : Text.precedes o operator = true :=
          (Text.precedes_or_precedes (by simpa using hne)).resolve_left hnot
        have hrest := ih ⟨hsorted', hused.2⟩
        refine ⟨List.pairwise_cons.2 ⟨fun a ha => ?_, hrest.sorted⟩,
          List.forall_mem_cons.2 ⟨hused.1, hrest.used⟩⟩
        rcases fst_of_mem_record ha with heq | hmem
        · rw [heq]
          exact hbefore
        · obtain ⟨a', ha', heq⟩ := List.mem_map.1 hmem
          rw [← heq]
          exact hfirst a' ha'

theorem get_eq_zero (h : text ∉ u.map Prod.fst) : u.get text = 0 := by
  have hnone : u.filter (·.1 == text) = [] := by
    rw [List.filter_eq_nil_iff]
    exact fun e he heq => h (List.mem_map.2 ⟨e, he, beq_iff_eq.1 heq⟩)
  rw [get, hnone]
  rfl

/-- An ordered list has one entry for each operator that is used, with all its uses. -/
theorem IsOrdered.mem_iff (h : u.IsOrdered) : (text, n) ∈ u ↔ 0 < n ∧ n = u.get text := by
  induction u with
  | nil =>
    refine iff_of_false List.not_mem_nil ?_
    rintro ⟨hpos, rfl⟩
    exact Nat.lt_irrefl 0 hpos
  | cons e u ih =>
    obtain ⟨o, m⟩ := e
    obtain ⟨hsorted, hused⟩ := h
    obtain ⟨hfirst, hsorted'⟩ := List.pairwise_cons.1 hsorted
    rw [List.forall_mem_cons] at hused
    rw [get_cons, List.mem_cons, Prod.mk.injEq]
    by_cases ho : o = text
    · subst ho
      have hlater : o ∉ u.map Prod.fst := by
        intro hmem
        obtain ⟨a, ha, rfl⟩ := List.mem_map.1 hmem
        have hself := hfirst a ha
        rw [Text.not_precedes_self] at hself
        cases hself
      have hnot : (o, n) ∉ u := fun hmem => hlater (List.mem_map_of_mem (f := Prod.fst) hmem)
      have hpos := hused.1
      rw [if_pos rfl, get_eq_zero hlater]
      constructor
      · rintro (⟨-, rfl⟩ | hmem)
        · exact ⟨hpos, rfl⟩
        · exact absurd hmem hnot
      · exact fun hn => Or.inl ⟨rfl, hn.2⟩
    · rw [if_neg ho, Nat.zero_add, ← ih ⟨hsorted', hused.2⟩]
      exact or_iff_right fun heq => ho heq.1.symm

/-- Uses that are recorded one after the other. -/
theorem foldl_record (u : Usage) (ts : List Token) :
    let v := ts.foldl (fun u t => u.record t.value) u
    (u.IsOrdered → v.IsOrdered) ∧
    (∀ text, v.get text = u.get text + ts.countP fun t => t.value == text) ∧
    (v.map Prod.snd).sum = (u.map Prod.snd).sum + ts.length := by
  induction ts generalizing u with
  | nil => exact ⟨id, fun _ => rfl, rfl⟩
  | cons t ts ih =>
    obtain ⟨hordered, hget, hsum⟩ := ih (u.record t.value)
    refine ⟨fun h => hordered (h.record t.value), fun text => ?_, ?_⟩
    · rw [List.foldl_cons, hget, get_record, List.countP_cons]
      simp only [beq_iff_eq]
      omega
    · rw [List.foldl_cons, hsum, sum_record, List.length_cons]
      omega

/-- The list has each operator among the tokens once, with the number of times that it occurs
there, in the order of the texts. -/
structure Tallies (u : Usage) (ts : List Token) : Prop where
  sorted : u.Pairwise fun a b => Text.precedes a.1 b.1 = true
  mem_iff : ∀ text n, (text, n) ∈ u ↔
    0 < n ∧ n = ts.countP fun t => t.isOperator && t.value == text
  sum : (u.map Prod.snd).sum = (Counts.ofTokens ts).operators

theorem tallies_ofTokens (ts : List Token) : (ofTokens ts).Tallies ts := by
  obtain ⟨hordered, hget, hsum⟩ := foldl_record [] (ts.filter (·.isOperator))
  have hordered := hordered ⟨.nil, by simp⟩
  refine ⟨hordered.sorted, fun text n => ?_, ?_⟩
  · have hcount := hget text
    rw [List.countP_filter] at hcount
    rw [ofTokens, hordered.mem_iff, hcount]
    simp [get, Bool.and_comm]
  · have hcount : (Counts.ofTokens ts).get .operator = (ts.filter (·.isOperator)).length := by
      rw [Counts.get_ofTokens, List.countP_eq_length_filter]
      rfl
    rw [ofTokens, hsum, ← hcount]
    exact Nat.zero_add _

end Usage

/-! ## The figures of a scan -/

/-- Raw tokens are the final ones and those that were taken in, and the counts add up to the final
tokens. Joining changes no count but that of the operators, which loses what was taken in. If
details are collected, each construct is counted as often as the source opens it, and if operators
are tracked, the uses are those among the final tokens; else they are left out. Scanners with other
preferences have the same tokens, and the same figures but for these two. -/
theorem figures_parse (s s' : Scanner) (elapsed : Span) (source : List UInt8) :
    let scan := (s.parse elapsed source).value.last
    let scan' := (s'.parse elapsed source).value.last
    let raw := Counts.ofTokens (Machine.scan source).tokens
    scan.metrics.rawTokens = scan.metrics.totalTokens + scan.metrics.absorbedOperators ∧
    scan.metrics.totalTokens = scan.counts.total ∧
    (∀ k, raw.get k =
      scan.counts.get k + if k = .operator then scan.metrics.absorbedOperators else 0) ∧
    (∀ d, scan.metrics.opened.get d =
      if s.preferences.collectDetails then (constructs (normalize source)).count d else 0) ∧
    (if s.preferences.trackOperators then scan.metrics.usage.Tallies scan.tokens
      else scan.metrics.usage = []) ∧
    scan'.tokens = scan.tokens ∧
    { scan'.metrics with opened := {}, usage := [] } =
      { scan.metrics with opened := {}, usage := [] } := by
  intro scan scan' raw
  refine ⟨(length_joinOperators _).symm, (Counts.total_ofTokens _).symm, ?_, ?_, ?_, rfl, rfl⟩
  · intro k
    split
    · rename_i hk
      subst hk
      exact operators_joinOperators _
    · rename_i hk
      exact (get_joinOperators_of_ne hk _).symm
  · intro d
    rw [opened_parse]
    split
    · exact opened_scan source d
    · cases d <;> rfl
  · have husage : scan.metrics.usage =
        if s.preferences.trackOperators then Usage.ofTokens scan.tokens else [] := rfl
    rw [husage]
    split
    · exact Usage.tallies_ofTokens scan.tokens
    · rfl

end ScalaLex
