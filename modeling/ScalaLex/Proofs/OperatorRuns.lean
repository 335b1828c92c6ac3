import ScalaLex.Proofs.Constructs
import ScalaLex.Proofs.Spelling

/-!
# The text of an operator

An operator of a scan is made of words that start above 127 and of symbols. So if no quote is in
it, no byte of it is a digit, and a letter or underscore comes in it behind a part of a word only
(`IsOperatorRun`). A source that is such a run and opens no construct is cut into words and symbols
again, all of them operators, though not always into those that the run was made of
(`IsOperatorRun.of_mem_pieces`).

A bracket or semicolon takes nothing in. So no operator starts with one and goes on
(`hardAlone_of_mem_parse`).
-/

namespace ScalaLex

variable {b c : UInt8} {s u v w rest bytes source : List UInt8} {t next : Token} {l : Placed}
  {text : String} {p : Piece}

/-! ## Runs of words and symbols -/

/-- A letter or the underscore. -/
def Byte.startsName (b : UInt8) : Bool := isLetter b || b == 0x5F

/-- Bytes among which no number and no name starts. -/
structure IsOperatorRun (s : List UInt8) : Prop where
  noDigit : ∀ b ∈ s, Byte.isDigit b = false
  head : ∀ b ∈ s.head?, Byte.startsName b = false
  behindWord : s.IsChain fun a b => Byte.startsName b = true → Byte.isWord a = true

theorem Byte.startsName_of_not_isWord (h : isWord b = false) : startsName b = false := by
  rw [isWord, Bool.or_eq_false_iff] at h
  exact h.1

namespace IsOperatorRun

theorem append (hu : IsOperatorRun u) (hv : IsOperatorRun v) : IsOperatorRun (u ++ v) where
  noDigit := List.forall_mem_append.2 ⟨hu.noDigit, hv.noDigit⟩
  head := by
    cases u with
    | nil => exact hv.head
    | cons a u => exact hu.head
  behindWord := by
    refine List.isChain_append.2 ⟨hu.behindWord, hv.behindWord, fun a _ b hb hname => ?_⟩
    rw [hv.head b hb] at hname
    cases hname

/-- What comes behind a part of a run is a run, unless it goes on with a name. -/
theorem of_suffix (h : IsOperatorRun s) (hsuffix : u <:+ s)
    (hhead : ∀ b ∈ u.head?, Byte.startsName b = false) : IsOperatorRun u where
  noDigit := fun b hb => h.noDigit b (hsuffix.subset hb)
  head := hhead
  behindWord := h.behindWord.suffix hsuffix

/-- A lexeme that is an operator and no quote is a run. -/
theorem of_isLexeme (h : IsLexeme s) (hclass : classify? s = some .operator)
    (hquote : 0x27 ∉ s) : IsOperatorRun s := by
  obtain ⟨b, w, rfl⟩ := exists_cons_of_classify? hclass
  rw [classify?_eq_operator_iff (h.visible List.mem_cons_self).1, Bool.or_eq_false_iff] at hclass
  have hhead : ∀ a ∈ (b :: w).head?, Byte.startsName a = false := by
    rintro a ⟨⟩
    exact hclass.1
  cases h with
  | word h =>
    refine ⟨fun a ha => Byte.isDigit_of_isWord (h a ha), hhead, List.Pairwise.isChain ?_⟩
    exact List.pairwise_of_forall_mem_list fun a ha _ _ _ => h a ha
  | number hdigit =>
    rw [hclass.2] at hdigit
    cases hdigit
  | quote => exact absurd List.mem_cons_self hquote
  | symbol => exact ⟨List.forall_mem_singleton.2 hclass.2, hhead, .singleton b⟩

/-- A run that opens nothing starts with a word or a symbol, and goes on as a run behind it. -/
theorem front (h : IsOperatorRun (b :: rest)) (hblank : Byte.isBlank b = false)
    (hopen : Delimiter.opening? (b :: rest) = none) :
    (Piece.front b rest).1.skipped = [] ∧
      classify? (Piece.front b rest).1.lexeme = some .operator ∧
        IsOperatorRun (Piece.front b rest).2 := by
  have hdigit := h.noDigit b List.mem_cons_self
  have hname : Byte.startsName b = false := h.head b rfl
  have hclass : ∀ w, classify? (b :: w) = some .operator := fun w =>
    (classify?_eq_operator_iff hblank w).2 (Bool.or_eq_false_iff.2 ⟨hname, hdigit⟩)
  cases hword : Byte.isWord b with
  | true =>
    rw [Piece.front_word hword]
    refine ⟨rfl, hclass _, h.of_suffix ?_ fun c hc => ?_⟩
    · exact (List.dropWhile_suffix _).trans (List.suffix_cons b rest)
    · have hnot := List.head?_dropWhile_not Byte.isWord rest
      rw [Option.mem_def.1 hc] at hnot
      exact Byte.startsName_of_not_isWord (by simpa using hnot)
  | false =>
    rw [Piece.front_symbol hopen (by rw [hdigit, hword, hblank]; rfl)]
    refine ⟨rfl, hclass _, h.of_suffix (List.suffix_cons b rest) fun c hc => ?_⟩
    obtain ⟨r, rfl⟩ := List.head?_eq_some_iff.1 hc
    have hbehind := (List.isChain_cons_cons.1 h.behindWord).1
    rw [hword] at hbehind
    simpa using hbehind

/-- Each piece of a run that opens no construct is an operator, and nothing is passed over. -/
theorem of_mem_pieces (h : IsOperatorRun s) (hvisible : ∀ b ∈ s, Byte.isBlank b = false)
    (hopen : constructs s = []) :
    ∀ p ∈ pieces s, p.skipped = [] ∧ classify? p.lexeme = some .operator := by
  fun_induction pieces s with
  | case1 => exact fun p hp => by cases hp
  | case2 b rest ih =>
    rw [constructs, List.append_eq_nil_iff] at hopen
    obtain ⟨hskipped, hclass, hbehind⟩ :=
      h.front (hvisible b List.mem_cons_self) (by simpa using hopen.1)
    refine List.forall_mem_cons.2 ⟨⟨hskipped, hclass⟩, ih hbehind (fun c hc => ?_) hopen.2⟩
    refine hvisible c ?_
    rw [← Piece.bytes_front b rest]
    exact List.mem_append_right _ hc

end IsOperatorRun

/-! ## Final operators -/

/-- The brackets and the semicolon. -/
def hardBytes : List UInt8 := [0x28, 0x29, 0x5B, 0x5D, 0x7B, 0x7D, 0x3B]

theorem isHardPunctuation_iff : isHardPunctuation text = true ↔
    ∃ b ∈ hardBytes, Utf8.encode text = [b] := by
  constructor
  · intro h
    simp only [isHardPunctuation, Bool.or_eq_true, beq_iff_eq] at h
    rcases h with (((((rfl | rfl) | rfl) | rfl) | rfl) | rfl) | rfl
    all_goals exact ⟨_, by decide, rfl⟩
  · rintro ⟨b, hb, h⟩
    have hall : ∀ b ∈ hardBytes, b.toNat < 0x80 ∧
        isHardPunctuation (String.singleton (Char.ofNat b.toNat)) = true := by
      simp [hardBytes, isHardPunctuation]
    obtain ⟨hlow, hhard⟩ := hall b hb
    have htext : text = String.singleton (Char.ofNat b.toNat) := by
      rw [← Utf8.decode_encode text, h, Utf8.decode_cons, Utf8.next_ascii hlow]
      simp [Utf8.decode, Utf8.decodeOnto]
    rwa [htext]

/-- A bracket or semicolon at the start is all there is. -/
def HardAlone (s : List UInt8) : Prop := ∀ b ∈ hardBytes, ∀ w, s = b :: w → w = []

theorem HardAlone.of_isLexeme (h : IsLexeme s) : HardAlone s := by
  have hclass : ∀ b ∈ hardBytes, Byte.isWord b = false ∧ Byte.isDigit b = false ∧ b ≠ 0x27 := by
    simp [hardBytes, Byte.isWord, Byte.isDigit, Byte.isLetter]
  rintro b hb w rfl
  obtain ⟨hword, hdigit, hquote⟩ := hclass b hb
  cases h with
  | word h =>
    rw [h b List.mem_cons_self] at hword
    cases hword
  | number hdigit' =>
    rw [hdigit'] at hdigit
    cases hdigit
  | quote => exact absurd rfl hquote
  | symbol => rfl

/-- No operator goes on behind a bracket or semicolon that it starts with. -/
theorem hardAlone_of_mem_parse (s : Scanner) (elapsed : Span) (source : List UInt8) :
    ∀ t ∈ (s.parse elapsed source).value.last.tokens, HardAlone (Utf8.encode t.value) := by
  have hall : ∀ t ∈ (s.parse elapsed source).value.last.tokens,
      t.IsSpelled ∧ HardAlone (Utf8.encode t.value) := by
    refine forall_tokens_parse (fun l hl => ?_) ?_ s elapsed
    · exact ⟨isSpelled_token hl, .of_isLexeme (isLexeme_of_mem hl).encode_decode⟩
    · intro t next ht hnext hjoins
      refine ⟨ht.1.absorb hnext.1 hjoins, fun b hb w hbytes => ?_⟩
      obtain ⟨c, w', hfirst⟩ := exists_cons_of_classify? ht.1.kind
      rw [Token.absorb, Utf8.encode_append, hfirst, List.cons_append] at hbytes
      obtain ⟨rfl, -⟩ := List.cons.inj hbytes
      -- what starts with one is one, and takes nothing in
      rw [ht.2 c hb w' hfirst] at hfirst
      have hhard := (joins_eq_true_iff.1 hjoins).2.2
      rw [isHardPunctuation_iff.2 ⟨c, hb, hfirst⟩] at hhard
      cases hhard
  exact fun t ht => (hall t ht).2

/-- An operator with no quote in it is a run. -/
theorem isOperatorRun_of_mem_parse (s : Scanner) (elapsed : Span) (source : List UInt8) :
    ∀ t ∈ (s.parse elapsed source).value.last.tokens, t.kind = .operator →
      0x27 ∉ Utf8.encode t.value → IsOperatorRun (Utf8.encode t.value) := by
  refine forall_tokens_parse (fun l hl hkind hquote => ?_) ?_ s elapsed
  · have hclass := (isSpelled_token hl).kind
    rw [hkind] at hclass
    exact .of_isLexeme (isLexeme_of_mem hl).encode_decode hclass hquote
  · intro t next ht hnext hjoins _ hquote
    obtain ⟨htkind, hnextkind, -⟩ := joins_eq_true_iff.1 hjoins
    rw [Token.absorb, Utf8.encode_append] at hquote ⊢
    rw [List.mem_append, not_or] at hquote
    exact (ht htkind hquote.1).append (hnext hnextkind hquote.2)

end ScalaLex
