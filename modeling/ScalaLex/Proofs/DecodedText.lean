import Mathlib.Data.List.Basic
import ScalaLex.Proofs.EncodedText

/-!
# The text of any bytes

`Utf8.decode` reads every byte string. Bytes below 128 stand in the text as they are
(`encode_decode_cons_of_lt`, `toList_decode_of_ascii`), and whatever is read from a byte above
127 on is spelled by bytes above 127 (`exists_encode_decode_cons`). So each byte of the text is
one of the bytes that were read, or above 127 (`mem_encode_decode`), and the text has a
replacement character exactly where a part of the bytes is ill-formed.

A text of bytes below 128 that is found among the bytes of a text is found in the text itself
(`infix_of_infix_encode`).
-/

namespace ScalaLex.Utf8

variable {b c : UInt8} {char : Char} {n bits : Nat} {rest bytes : List UInt8} {text part : String}

/-! ## The length of a decoded text -/

theorem decode_cons (b : UInt8) (rest : List UInt8) : decode (b :: rest) =
    String.singleton ((next b rest).1.getD replacement) ++ decode (next b rest).2 := by
  rw [← String.toList_inj, toList_decode, parts]
  simp [toList_decode]

theorem utf8ByteSize_decode_cons (b : UInt8) (rest : List UInt8) :
    (decode (b :: rest)).utf8ByteSize =
      ((next b rest).1.getD replacement).utf8Size + (decode (next b rest).2).utf8ByteSize := by
  rw [decode_cons, String.utf8ByteSize_append, String.utf8ByteSize_singleton]

theorem utf8ByteSize_decode_pos (h : rest ≠ []) : 0 < (decode rest).utf8ByteSize := by
  obtain ⟨b, w, rfl⟩ := List.exists_cons_of_ne_nil h
  have hpos := Char.utf8Size_pos ((next b w).1.getD replacement)
  rw [utf8ByteSize_decode_cons]
  omega

/-- A scalar that is read from a byte above 127 on is longer than one byte, and so is what
stands for an ill-formed part. -/
theorem one_lt_utf8Size_of_next (hb : 0x80 ≤ b.toNat) (rest : List UInt8) :
    1 < ((next b rest).1.getD replacement).utf8Size := by
  cases hnext : (next b rest).1 with
  | none => decide
  | some char =>
    have hspelled : String.utf8EncodeChar char ++ (next b rest).2 = b :: rest :=
      utf8EncodeChar_of_next (Prod.ext hnext rfl)
    rw [Option.getD_some, ← String.length_utf8EncodeChar]
    by_contra hshort
    have hmem : b ∈ String.utf8EncodeChar char := by
      have hpos := Char.utf8Size_pos char
      rw [← String.length_utf8EncodeChar, List.length_pos_iff] at hpos
      obtain ⟨c, w, hw⟩ := List.exists_cons_of_ne_nil hpos
      rw [hw] at hspelled ⊢
      rw [← (List.cons.inj hspelled).1]
      exact List.mem_cons_self
    have := lt_of_mem_utf8EncodeChar (Nat.not_lt.1 hshort) b hmem
    omega

/-- Only a single byte below 128 is read as a text of one byte. -/
theorem one_lt_utf8ByteSize_decode_iff (b : UInt8) (rest : List UInt8) :
    1 < (decode (b :: rest)).utf8ByteSize ↔ 0x80 ≤ b.toNat ∨ rest ≠ [] := by
  rw [utf8ByteSize_decode_cons]
  rcases Nat.lt_or_ge b.toNat 0x80 with hb | hb
  · have hone : (Char.ofNat b.toNat).utf8Size = 1 := by
      rw [Char.utf8Size_eq_one_iff, UInt32.le_iff_toNat_le, val_ofNat (Or.inl (by omega))]
      exact Nat.le_of_lt_succ hb
    rw [next_ascii hb, Option.getD_some, hone, or_iff_right (Nat.not_le.2 hb)]
    dsimp only
    constructor
    · rintro hlong rfl
      exact absurd hlong (by rw [decode, decodeOnto]; decide)
    · intro hne
      have := utf8ByteSize_decode_pos hne
      omega
  · have hlong := one_lt_utf8Size_of_next hb rest
    exact iff_of_true (by omega) (Or.inl hb)

/-! ## The bytes of a decoded text -/

theorem utf8EncodeChar_ascii (h : char.toNat < 0x80) :
    String.utf8EncodeChar char = [UInt8.ofNat char.toNat] :=
  if_pos (Nat.le_of_lt_succ h)

theorem toNat_ofNat_ascii (hb : b.toNat < 0x80) : (Char.ofNat b.toNat).toNat = b.toNat :=
  val_ofNat (Or.inl (by omega))

theorem encode_singleton (char : Char) :
    encode (String.singleton char) = String.utf8EncodeChar char := by
  simp [encode]

theorem suffix_trail (n bits : Nat) (rest : List UInt8) : (trail n bits rest).2 <:+ rest := by
  induction n generalizing bits rest with
  | zero => exact List.suffix_refl rest
  | succ n ih =>
    cases rest with
    | nil => exact List.suffix_refl []
    | cons b rest =>
      rw [trail]
      split
      · exact (ih _ rest).trans (List.suffix_cons b rest)
      · exact List.suffix_refl _

theorem suffix_next (b : UInt8) (rest : List UInt8) : (next b rest).2 <:+ rest := by
  unfold next
  split
  · exact List.suffix_refl rest
  · split
    · split
      · exact (suffix_trail _ _ _).trans (List.suffix_cons _ _)
      · exact List.suffix_refl _
    · exact List.suffix_refl _
    · exact List.suffix_refl _

/-- A byte below 128 stands in the text as it is. -/
theorem encode_decode_cons_of_lt (hb : b.toNat < 0x80) (rest : List UInt8) :
    encode (decode (b :: rest)) = b :: encode (decode rest) := by
  have hchar : (Char.ofNat b.toNat).toNat < 0x80 := by rwa [toNat_ofNat_ascii hb]
  rw [decode_cons, next_ascii hb, encode_append, encode_singleton, Option.getD_some,
    utf8EncodeChar_ascii hchar, toNat_ofNat_ascii hb, UInt8.ofNat_toNat, List.singleton_append]

/-- What is read from a byte above 127 on is spelled by such bytes. -/
theorem exists_encode_decode_cons (hb : 0x80 ≤ b.toNat) (rest : List UInt8) :
    ∃ c w, encode (decode (b :: rest)) = c :: w ++ encode (decode (next b rest).2) ∧
      ∀ d ∈ c :: w, 0x80 ≤ d.toNat := by
  have hlong := one_lt_utf8Size_of_next hb rest
  rw [← String.length_utf8EncodeChar] at hlong
  obtain ⟨c, w, hw⟩ := List.exists_cons_of_length_pos (Nat.zero_lt_of_lt hlong)
  refine ⟨c, w, ?_, fun d hd => le_of_mem_utf8EncodeChar hlong d (by rwa [hw])⟩
  rw [decode_cons, encode_append, encode_singleton, hw]

/-- A byte of the text is one of the bytes that were read, or above 127. -/
theorem mem_encode_decode (h : c ∈ encode (decode bytes)) : c ∈ bytes ∨ 0x80 ≤ c.toNat := by
  induction bytes using parts.induct with
  | case1 =>
    rw [decode, decodeOnto] at h
    cases h
  | case2 b rest ih =>
    have htail : c ∈ encode (decode (next b rest).2) → c ∈ b :: rest ∨ 0x80 ≤ c.toNat := fun h =>
      (ih h).imp_left fun hmem => List.mem_cons_of_mem b ((suffix_next b rest).subset hmem)
    rcases Nat.lt_or_ge b.toNat 0x80 with hb | hb
    · rw [next_ascii hb] at htail
      rw [encode_decode_cons_of_lt hb] at h
      rcases List.mem_cons.1 h with rfl | h
      · exact Or.inl List.mem_cons_self
      · exact htail h
    · obtain ⟨d, w, hspelled, hhigh⟩ := exists_encode_decode_cons hb rest
      rw [hspelled] at h
      rcases List.mem_append.1 h with h | h
      · exact Or.inr (hhigh c h)
      · exact htail h

theorem encode_decode_ne_nil (h : bytes ≠ []) : encode (decode bytes) ≠ [] := by
  rw [← List.length_pos_iff, length_encode]
  exact utf8ByteSize_decode_pos h

/-- An ill-formed part shows in the text. -/
theorem replacement_mem_decode (h : isValid bytes = false) :
    replacement ∈ (decode bytes).toList := by
  rw [isValid_eq_all, List.all_eq_false] at h
  obtain ⟨part, hpart, hnone⟩ := h
  rw [toList_decode]
  refine List.mem_map.2 ⟨part, hpart, ?_⟩
  rw [Option.not_isSome_iff_eq_none.1 hnone, Option.getD_none]

/-! ## Bytes below 128 -/

theorem isValid_of_ascii (h : ∀ b ∈ bytes, b.toNat < 0x80) : isValid bytes = true := by
  induction bytes with
  | nil => rw [isValid]
  | cons b rest ih =>
    rw [isValid, next_ascii (h b List.mem_cons_self)]
    exact ih fun c hc => h c (List.mem_cons_of_mem b hc)

theorem toList_decode_of_ascii (h : ∀ b ∈ bytes, b.toNat < 0x80) :
    (decode bytes).toList = bytes.map fun b => Char.ofNat b.toNat := by
  induction bytes with
  | nil => rw [decode, decodeOnto]; rfl
  | cons b rest ih =>
    rw [decode_cons, next_ascii (h b List.mem_cons_self), String.toList_append,
      String.toList_singleton, ih fun c hc => h c (List.mem_cons_of_mem b hc)]
    rfl

theorem encode_inj {s t : String} (h : encode s = encode t) : s = t := by
  rw [← decode_encode s, h, decode_encode]

/-- A character below 128 stands among the bytes of the text. -/
theorem mem_encode_of_ascii (h : char ∈ text.toList) (hchar : char.toNat < 0x80) :
    UInt8.ofNat char.toNat ∈ encode text :=
  List.mem_flatMap.2 ⟨char, h, by rw [utf8EncodeChar_ascii hchar]; exact List.mem_singleton_self _⟩

/-- A text of bytes below 128 that stands among the bytes of a text is a part of it. -/
theorem infix_of_infix_encode (hascii : ∀ b ∈ encode part, b.toNat < 0x80)
    (h : encode part <:+: encode text) : part.toList <:+: text.toList := by
  obtain ⟨u, v, huv⟩ := h
  have hvalid := isValid_encode text
  rcases List.eq_nil_or_concat' (encode part) with hnil | ⟨front, last, hlast⟩
  · have hempty : part = "" := encode_inj hnil
    rw [hempty]
    exact List.nil_infix
  have hlast' : AsciiSeam (u ++ encode part) v := by
    refine Or.inl fun b hb => hascii b ?_
    rw [hlast, ← List.append_assoc, List.getLast?_concat] at hb
    rw [hlast, ← Option.some.inj hb]
    exact List.mem_concat_self
  have hfirst : AsciiSeam u (encode part) := by
    exact Or.inr fun b hb => hascii b (List.mem_of_mem_head? hb)
  rw [← huv] at hvalid
  obtain ⟨hleft, hright⟩ := isValid_append hlast' hvalid
  obtain ⟨before, rfl⟩ := isValid_iff.1 (isValid_append hfirst hleft).1
  obtain ⟨after, rfl⟩ := isValid_iff.1 hright
  rw [← encode_append, ← encode_append] at huv
  refine ⟨before.toList, after.toList, ?_⟩
  rw [← String.toList_append, ← String.toList_append, encode_inj huv]

end ScalaLex.Utf8
