import Mathlib.Data.List.Basic
import Mathlib.Tactic.SplitIfs
import ScalaLex.Text.Utf8

/-!
# Reading and writing UTF-8

`Utf8.next` reads a scalar from exactly the bytes that spell it : from the bytes of a scalar it
reads that scalar, whatever comes behind them (`next_utf8EncodeChar`), and the bytes that it
reads a scalar from are those of the scalar (`utf8EncodeChar_of_next`). Both are shown for each
number of bytes that a scalar can have.

So the byte strings without an ill-formed part are the spellings of texts (`isValid_iff`), and
decoding such a string and spelling the text gives the string back (`encode_decode`). Such a
string can be cut next to any byte below 128 (`isValid_append`).
-/

namespace ScalaLex.Utf8

variable {b c d e : UInt8} {char : Char} {n bits : Nat} {l : Lead}
  {rest rest' bytes u v : List UInt8}

theorem isTrail_iff : isTrail b = true ↔ 0x80 ≤ b.toNat ∧ b.toNat ≤ 0xBF := by
  simp [isTrail, UInt8.le_iff_toNat_le]

theorem val_ofNat (h : n.isValidChar) : (Char.ofNat n).val.toNat = n := by
  rw [Char.ofNat, dif_pos h]
  rfl

/-! ## Leading bytes -/

/-- These bytes lead a scalar value of two bytes. -/
theorem lead?_two (h : 0xC2 ≤ b.toNat) (h' : b.toNat ≤ 0xDF) :
    lead? b = some ⟨0x80, 0xBF, 0, b.toNat - 0xC0⟩ := by
  rw [lead?, if_pos (by simp [UInt8.le_iff_toNat_le, h, h'])]

/-- These bytes lead one of three bytes. Behind two of them the next byte is bounded further. -/
theorem lead?_three (h : 0xE0 ≤ b.toNat) (h' : b.toNat ≤ 0xEF) : lead? b =
    some ⟨if b = 0xE0 then 0xA0 else 0x80, if b = 0xED then 0x9F else 0xBF, 1,
      b.toNat - 0xE0⟩ := by
  simp only [lead?, UInt8.le_iff_toNat_le, ← UInt8.toNat_inj, UInt8.reduceToNat]
  split_ifs <;> first | omega | simp_all

/-- These bytes lead one of four bytes. Behind two of them the next byte is bounded further. -/
theorem lead?_four (h : 0xF0 ≤ b.toNat) (h' : b.toNat ≤ 0xF4) : lead? b =
    some ⟨if b = 0xF0 then 0x90 else 0x80, if b = 0xF4 then 0x8F else 0xBF, 2,
      b.toNat - 0xF0⟩ := by
  simp only [lead?, UInt8.le_iff_toNat_le, ← UInt8.toNat_inj, UInt8.reduceToNat]
  split_ifs <;> first | omega | simp_all

/-- No other byte leads a scalar value. -/
theorem lead?_eq_none (h : b.toNat < 0xC2 ∨ 0xF4 < b.toNat) : lead? b = none := by
  simp only [lead?, UInt8.le_iff_toNat_le, ← UInt8.toNat_inj, UInt8.reduceToNat]
  split_ifs <;> first | omega | rfl

theorem next_ascii (h : b.toNat < 0x80) (rest : List UInt8) :
    next b rest = (some (Char.ofNat b.toNat), rest) := by
  unfold next
  rw [if_pos (UInt8.lt_iff_toNat_lt.2 h)]

theorem next_of_lead?_eq_none (hb : 0x80 ≤ b.toNat) (h : lead? b = none) (rest : List UInt8) :
    next b rest = (none, rest) := by
  unfold next
  rw [if_neg (by rw [UInt8.lt_iff_toNat_lt]; exact Nat.not_lt.2 hb), h]

/-- Behind a leading byte comes a byte within the bounds that it sets. -/
theorem next_cons (hb : 0x80 ≤ b.toNat) (h : lead? b = some l) (c : UInt8) (rest : List UInt8) :
    next b (c :: rest) = if l.low.toNat ≤ c.toNat ∧ c.toNat ≤ l.high.toNat then
      trail l.more (l.bits * 64 + (c.toNat - 0x80)) rest else (none, c :: rest) := by
  unfold next
  rw [if_neg (by rw [UInt8.lt_iff_toNat_lt]; exact Nat.not_lt.2 hb), h]
  simp only [UInt8.le_iff_toNat_le]

theorem trail_cons (hc : 0x80 ≤ c.toNat) (hc' : c.toNat ≤ 0xBF) (n bits : Nat)
    (rest : List UInt8) :
    trail (n + 1) bits (c :: rest) = trail n (bits * 64 + (c.toNat - 0x80)) rest := by
  rw [trail, if_pos (isTrail_iff.2 ⟨hc, hc'⟩)]

/-- Where a scalar value is read its second byte is within the bounds of the first. -/
theorem exists_of_next_eq_some (hb : 0x80 ≤ b.toNat) (h : lead? b = some l)
    (hnext : next b rest = (some char, rest')) : ∃ c w, rest = c :: w ∧
      l.low.toNat ≤ c.toNat ∧ c.toNat ≤ l.high.toNat ∧
        trail l.more (l.bits * 64 + (c.toNat - 0x80)) w = (some char, rest') := by
  cases rest with
  | nil =>
    unfold next at hnext
    rw [if_neg (by rw [UInt8.lt_iff_toNat_lt]; exact Nat.not_lt.2 hb), h] at hnext
    simp at hnext
  | cons c w =>
    rw [next_cons hb h] at hnext
    split at hnext
    · rename_i hc
      exact ⟨c, w, rfl, hc.1, hc.2, hnext⟩
    · simp at hnext

theorem exists_of_trail_eq_some (h : trail (n + 1) bits rest = (some char, rest')) :
    ∃ c w, rest = c :: w ∧ 0x80 ≤ c.toNat ∧ c.toNat ≤ 0xBF ∧
      trail n (bits * 64 + (c.toNat - 0x80)) w = (some char, rest') := by
  cases rest with
  | nil => simp [trail] at h
  | cons c w =>
    rw [trail] at h
    split at h
    · rename_i hc
      exact ⟨c, w, rfl, (isTrail_iff.1 hc).1, (isTrail_iff.1 hc).2, h⟩
    · simp at h

/-! ## Scalars of two, three and four bytes -/

/-- A scalar value of two bytes is read back from them. -/
theorem next_two (h : 0x80 ≤ n) (h' : n ≤ 0x7FF) (rest : List UInt8) :
    next (UInt8.ofNat (n / 64 % 32 + 192)) (UInt8.ofNat (n % 64 + 128) :: rest) =
      (some (Char.ofNat n), rest) := by
  have hb : (UInt8.ofNat (n / 64 % 32 + 192)).toNat = n / 64 + 192 := by simp; omega
  have hc : (UInt8.ofNat (n % 64 + 128)).toNat = n % 64 + 128 := by simp; omega
  have hn : (n / 64 + 192 - 0xC0) * 64 + (n % 64 + 128 - 0x80) = n := by omega
  rw [next_cons (by omega) (lead?_two (by omega) (by omega)), hb, hc,
    if_pos (by simp; omega), trail, hn]

/-- A scalar value of three bytes is read back from them, as it is no surrogate. -/
theorem next_three (h : 0x800 ≤ n) (h' : n ≤ 0xFFFF) (hvalid : n < 0xD800 ∨ 0xDFFF < n)
    (rest : List UInt8) :
    next (UInt8.ofNat (n / 4096 % 16 + 224)) (UInt8.ofNat (n / 64 % 64 + 128) ::
      UInt8.ofNat (n % 64 + 128) :: rest) = (some (Char.ofNat n), rest) := by
  have hb : (UInt8.ofNat (n / 4096 % 16 + 224)).toNat = n / 4096 + 224 := by simp; omega
  have hc : (UInt8.ofNat (n / 64 % 64 + 128)).toNat = n / 64 % 64 + 128 := by simp; omega
  have hd : (UInt8.ofNat (n % 64 + 128)).toNat = n % 64 + 128 := by simp; omega
  have hn : ((n / 4096 + 224 - 0xE0) * 64 + (n / 64 % 64 + 128 - 0x80)) * 64 +
      (n % 64 + 128 - 0x80) = n := by omega
  rw [next_cons (by omega) (lead?_three (by omega) (by omega)), if_pos,
    trail_cons (by omega) (by omega), trail, hb, hc, hd, hn]
  simp only [← UInt8.toNat_inj, hb, hc]
  split_ifs <;> simp_all <;> omega

/-- A scalar value of four bytes is read back from them. -/
theorem next_four (h : 0x10000 ≤ n) (h' : n ≤ 0x10FFFF) (rest : List UInt8) :
    next (UInt8.ofNat (n / 262144 % 8 + 240)) (UInt8.ofNat (n / 4096 % 64 + 128) ::
      UInt8.ofNat (n / 64 % 64 + 128) :: UInt8.ofNat (n % 64 + 128) :: rest) =
        (some (Char.ofNat n), rest) := by
  have hb : (UInt8.ofNat (n / 262144 % 8 + 240)).toNat = n / 262144 + 240 := by simp; omega
  have hc : (UInt8.ofNat (n / 4096 % 64 + 128)).toNat = n / 4096 % 64 + 128 := by simp; omega
  have hd : (UInt8.ofNat (n / 64 % 64 + 128)).toNat = n / 64 % 64 + 128 := by simp; omega
  have he : (UInt8.ofNat (n % 64 + 128)).toNat = n % 64 + 128 := by simp; omega
  have hn : (((n / 262144 + 240 - 0xF0) * 64 + (n / 4096 % 64 + 128 - 0x80)) * 64 +
      (n / 64 % 64 + 128 - 0x80)) * 64 + (n % 64 + 128 - 0x80) = n := by omega
  rw [next_cons (by omega) (lead?_four (by omega) (by omega)), if_pos,
    trail_cons (by omega) (by omega), trail_cons (by omega) (by omega), trail, hb, hc, hd, he, hn]
  simp only [← UInt8.toNat_inj, hb, hc]
  split_ifs <;> simp_all <;> omega

theorem utf8EncodeChar_two (hb : 0xC2 ≤ b.toNat) (hb' : b.toNat ≤ 0xDF) (hc : 0x80 ≤ c.toNat)
    (hc' : c.toNat ≤ 0xBF) : String.utf8EncodeChar
      (Char.ofNat ((b.toNat - 0xC0) * 64 + (c.toNat - 0x80))) = [b, c] := by
  have hval := val_ofNat (n := (b.toNat - 0xC0) * 64 + (c.toNat - 0x80)) (Or.inl (by omega))
  simp only [String.utf8EncodeChar, hval]
  rw [if_neg (by omega), if_pos (by omega)]
  simp [← UInt8.toNat_inj]
  omega

theorem utf8EncodeChar_three (hb : 0xE0 ≤ b.toNat) (hb' : b.toNat ≤ 0xEF) (hc : 0x80 ≤ c.toNat)
    (hc' : c.toNat ≤ 0xBF) (hlow : b.toNat = 0xE0 → 0xA0 ≤ c.toNat)
    (hhigh : b.toNat = 0xED → c.toNat ≤ 0x9F) (hd : 0x80 ≤ d.toNat) (hd' : d.toNat ≤ 0xBF) :
    String.utf8EncodeChar (Char.ofNat
      (((b.toNat - 0xE0) * 64 + (c.toNat - 0x80)) * 64 + (d.toNat - 0x80))) = [b, c, d] := by
  have hval := val_ofNat
    (n := ((b.toNat - 0xE0) * 64 + (c.toNat - 0x80)) * 64 + (d.toNat - 0x80))
    (by unfold Nat.isValidChar; omega)
  simp only [String.utf8EncodeChar, hval]
  rw [if_neg (by omega), if_neg (by omega), if_pos (by omega)]
  simp [← UInt8.toNat_inj]
  omega

theorem utf8EncodeChar_four (hb : 0xF0 ≤ b.toNat) (hb' : b.toNat ≤ 0xF4) (hc : 0x80 ≤ c.toNat)
    (hc' : c.toNat ≤ 0xBF) (hlow : b.toNat = 0xF0 → 0x90 ≤ c.toNat)
    (hhigh : b.toNat = 0xF4 → c.toNat ≤ 0x8F) (hd : 0x80 ≤ d.toNat) (hd' : d.toNat ≤ 0xBF)
    (he : 0x80 ≤ e.toNat) (he' : e.toNat ≤ 0xBF) : String.utf8EncodeChar (Char.ofNat
      ((((b.toNat - 0xF0) * 64 + (c.toNat - 0x80)) * 64 + (d.toNat - 0x80)) * 64 +
        (e.toNat - 0x80))) = [b, c, d, e] := by
  have hval := val_ofNat
    (n := (((b.toNat - 0xF0) * 64 + (c.toNat - 0x80)) * 64 + (d.toNat - 0x80)) * 64 +
      (e.toNat - 0x80)) (by unfold Nat.isValidChar; omega)
  simp only [String.utf8EncodeChar, hval]
  rw [if_neg (by omega), if_neg (by omega), if_neg (by omega)]
  simp [← UInt8.toNat_inj]
  omega

/-! ## A scalar and its bytes -/

/-- A scalar is read from the bytes that spell it, whatever comes behind them. -/
theorem next_utf8EncodeChar (char : Char) : ∃ b w, String.utf8EncodeChar char = b :: w ∧
    ∀ rest, next b (w ++ rest) = (some char, rest) := by
  have hval : char.val.toNat = char.toNat := rfl
  have hvalid : char.toNat.isValidChar := char.valid
  have hself : Char.ofNat char.toNat = char := Char.ofNat_toNat char
  unfold Nat.isValidChar at hvalid
  simp only [String.utf8EncodeChar, hval]
  generalize char.toNat = n at hvalid hself
  subst hself
  split_ifs with hone htwo hthree
  · refine ⟨_, _, rfl, fun rest => ?_⟩
    have hb : (UInt8.ofNat n).toNat = n := by simp; omega
    rw [List.nil_append, next_ascii (by omega), hb]
  · exact ⟨_, _, rfl, next_two (by omega) htwo⟩
  · exact ⟨_, _, rfl, next_three (by omega) hthree (by omega)⟩
  · exact ⟨_, _, rfl, next_four (by omega) (by omega)⟩

/-- The bytes that a scalar is read from spell it. -/
theorem utf8EncodeChar_of_next (h : next b rest = (some char, rest')) :
    String.utf8EncodeChar char ++ rest' = b :: rest := by
  rcases Nat.lt_or_ge b.toNat 0x80 with hb | hb
  · rw [next_ascii hb] at h
    cases h
    have hval := val_ofNat (n := b.toNat) (Or.inl (by omega))
    simp only [String.utf8EncodeChar, hval]
    rw [if_pos (by omega), UInt8.ofNat_toNat, List.singleton_append]
  by_cases hlead : b.toNat < 0xC2 ∨ 0xF4 < b.toNat
  · rw [next_of_lead?_eq_none hb (lead?_eq_none hlead)] at h
    cases h
  rw [not_or, Nat.not_lt, Nat.not_lt] at hlead
  obtain ⟨hmin, hmax⟩ := hlead
  rcases Nat.lt_or_ge b.toNat 0xE0 with htwo | htwo
  · obtain ⟨c, w, rfl, hc, hc', htrail⟩ :=
      exists_of_next_eq_some hb (lead?_two hmin (by omega)) h
    obtain ⟨hchar, rfl⟩ := Prod.mk.inj htrail
    obtain rfl := Option.some.inj hchar
    rw [utf8EncodeChar_two hmin (by omega) hc hc']
    rfl
  rcases Nat.lt_or_ge b.toNat 0xF0 with hthree | hthree
  · obtain ⟨c, w, rfl, hc, hc', htrail⟩ :=
      exists_of_next_eq_some hb (lead?_three htwo (by omega)) h
    obtain ⟨d, w, rfl, hd, hd', htrail⟩ := exists_of_trail_eq_some htrail
    obtain ⟨hchar, rfl⟩ := Prod.mk.inj htrail
    obtain rfl := Option.some.inj hchar
    simp only [← UInt8.toNat_inj, UInt8.reduceToNat, apply_ite UInt8.toNat] at hc hc'
    have hbounds : 0x80 ≤ c.toNat ∧ c.toNat ≤ 0xBF ∧ (b.toNat = 0xE0 → 0xA0 ≤ c.toNat) ∧
        (b.toNat = 0xED → c.toNat ≤ 0x9F) := by
      split_ifs at hc hc' <;> omega
    obtain ⟨hc, hc', hlow, hhigh⟩ := hbounds
    rw [utf8EncodeChar_three htwo (by omega) hc hc' hlow hhigh hd hd']
    rfl
  · obtain ⟨c, w, rfl, hc, hc', htrail⟩ :=
      exists_of_next_eq_some hb (lead?_four hthree hmax) h
    obtain ⟨d, w, rfl, hd, hd', htrail⟩ := exists_of_trail_eq_some htrail
    obtain ⟨e, w, rfl, he, he', htrail⟩ := exists_of_trail_eq_some htrail
    obtain ⟨hchar, rfl⟩ := Prod.mk.inj htrail
    obtain rfl := Option.some.inj hchar
    simp only [← UInt8.toNat_inj, UInt8.reduceToNat, apply_ite UInt8.toNat] at hc hc'
    have hbounds : 0x80 ≤ c.toNat ∧ c.toNat ≤ 0xBF ∧ (b.toNat = 0xF0 → 0x90 ≤ c.toNat) ∧
        (b.toNat = 0xF4 → c.toNat ≤ 0x8F) := by
      split_ifs at hc hc' <;> omega
    obtain ⟨hc, hc', hlow, hhigh⟩ := hbounds
    rw [utf8EncodeChar_four hthree hmax hc hc' hlow hhigh hd hd' he he']
    rfl

/-! ## Texts and their bytes -/

/-- Encoded characters are read back one by one. -/
theorem parts_flatMap (chars : List Char) :
    parts (chars.flatMap String.utf8EncodeChar) = chars.map some := by
  induction chars with
  | nil => simp [parts]
  | cons char chars ih =>
    obtain ⟨b, w, hw, hnext⟩ := next_utf8EncodeChar char
    rw [List.flatMap_cons, hw, List.cons_append, parts, hnext, ih, List.map_cons]

/-- A text is read from the bytes that spell it. -/
theorem decode_encode (text : String) : decode (encode text) = text := by
  rw [← String.toList_inj, toList_decode, encode, parts_flatMap, List.map_map]
  exact List.map_id _

/-- What is encoded is valid. -/
theorem isValid_encode (text : String) : isValid (encode text) = true := by
  rw [isValid_eq_all, encode, parts_flatMap]
  simp

/-- The text of bytes without an ill-formed part is spelled by them. -/
theorem encode_decode (h : isValid bytes = true) : encode (decode bytes) = bytes := by
  rw [encode, toList_decode]
  fun_induction isValid bytes with
  | case1 => simp [parts]
  | case2 b rest ih =>
    rw [Bool.and_eq_true] at h
    obtain ⟨char, hchar⟩ := Option.isSome_iff_exists.1 h.1
    rw [parts, List.map_cons, List.flatMap_cons, ih h.2, hchar]
    exact utf8EncodeChar_of_next (Prod.ext hchar rfl)

/-- The valid byte lists are those that a text is encoded as. -/
theorem isValid_iff : isValid bytes = true ↔ ∃ text, bytes = encode text := by
  constructor
  · exact fun h => ⟨decode bytes, (encode_decode h).symm⟩
  · rintro ⟨text, rfl⟩
    exact isValid_encode text

theorem encode_append (s t : String) : encode (s ++ t) = encode s ++ encode t := by
  simp [encode]

theorem encode_join (texts : List String) : encode (String.join texts) = texts.flatMap encode := by
  induction texts with
  | nil => rfl
  | cons text texts ih => rw [String.join_cons, encode_append, ih, List.flatMap_cons]

theorem length_encode (text : String) : (encode text).length = text.utf8ByteSize := by
  rw [encode, ← List.size_toByteArray, ← String.size_toByteArray, ← String.utf8Encode_toList,
    List.utf8Encode]

/-! ## Cutting next to a byte below 128 -/

/-- Where one byte string ends and the other starts there is a byte below 128, or nothing. -/
def AsciiSeam (u v : List UInt8) : Prop :=
  (∀ b ∈ u.getLast?, b.toNat < 0x80) ∨ ∀ b ∈ v.head?, b.toNat < 0x80

/-- A scalar of several bytes has no byte below 128. -/
theorem le_of_mem_utf8EncodeChar (h : 1 < (String.utf8EncodeChar char).length) :
    ∀ b ∈ String.utf8EncodeChar char, 0x80 ≤ b.toNat := by
  simp only [String.utf8EncodeChar] at h ⊢
  split_ifs at h ⊢ with hone
  · exact absurd h (by simp)
  all_goals
    simp only [List.forall_mem_cons, List.not_mem_nil, false_implies, implies_true, and_true,
      UInt8.toNat_ofNat']
    omega

theorem lt_of_mem_utf8EncodeChar (h : (String.utf8EncodeChar char).length ≤ 1) :
    ∀ b ∈ String.utf8EncodeChar char, b.toNat < 0x80 := by
  simp only [String.utf8EncodeChar] at h ⊢
  split_ifs at h ⊢ with hone
  · simp only [List.mem_singleton, forall_eq, UInt8.toNat_ofNat']
    omega
  all_goals exact absurd h (by simp)

/-- No scalar goes across such a seam. -/
theorem exists_of_flatMap_eq_append {chars : List Char} (hseam : AsciiSeam u v)
    (h : chars.flatMap String.utf8EncodeChar = u ++ v) : ∃ before after : List Char,
      u = before.flatMap String.utf8EncodeChar ∧ v = after.flatMap String.utf8EncodeChar := by
  induction chars generalizing u with
  | nil =>
    obtain ⟨rfl, rfl⟩ := List.append_eq_nil_iff.1 h.symm
    exact ⟨[], [], rfl, rfl⟩
  | cons char chars ih =>
    rw [List.flatMap_cons] at h
    rcases List.append_eq_append_iff.1 h with ⟨w, rfl, hw⟩ | ⟨w, hchar, rfl⟩
    · have hseam' : AsciiSeam w v := by
        refine hseam.imp_left fun hlast b hb => hlast b ?_
        rw [List.getLast?_append, Option.mem_def.1 hb]
        rfl
      obtain ⟨before, after, rfl, rfl⟩ := ih hseam' hw
      exact ⟨char :: before, after, rfl, rfl⟩
    · rcases List.eq_nil_or_concat' u with rfl | ⟨u, b, rfl⟩
      · exact ⟨[], char :: chars, rfl, by rw [List.flatMap_cons, hchar, List.nil_append]⟩
      cases w with
      | nil => exact ⟨[char], chars, by simp [hchar], rfl⟩
      | cons c w =>
        -- both bytes at the seam would be part of one scalar
        have hlong : 1 < (String.utf8EncodeChar char).length := by
          rw [hchar]
          simp
          omega
        have hhigh := le_of_mem_utf8EncodeChar hlong
        rw [hchar] at hhigh
        have hb := hhigh b (by simp)
        have hc := hhigh c (by simp)
        rcases hseam with hlast | hfirst
        · have := hlast b (by simp)
          omega
        · have := hfirst c (by simp)
          omega

/-- Next to a byte below 128 valid bytes may be cut in two valid parts. -/
theorem isValid_append (hseam : AsciiSeam u v) (h : isValid (u ++ v) = true) :
    isValid u = true ∧ isValid v = true := by
  obtain ⟨text, htext⟩ := isValid_iff.1 h
  obtain ⟨before, after, rfl, rfl⟩ := exists_of_flatMap_eq_append hseam htext.symm
  have hspelled : ∀ chars : List Char,
      isValid (chars.flatMap String.utf8EncodeChar) = true := fun chars => by
    rw [← String.toList_ofList (l := chars)]
    exact isValid_encode _
  exact ⟨hspelled before, hspelled after⟩

end ScalaLex.Utf8
