/-!
# UTF-8

Bytes are read one scalar value at a time. `Utf8.next` looks at the front of a byte string:
it gives the scalar spelled there, or `none` where no scalar is spelled, and the bytes
after the part it looked at. An ill-formed part is as long as it can be while a longer
input could still have made it well formed, and at least one byte.

`Utf8.decode` writes U+FFFD for each ill-formed part, so it reads every byte string, and
`Utf8.isValid` says whether there is no such part. `Utf8.encode` goes the other way.
-/

namespace ScalaLex.Utf8

/-- What a leading byte above U+007F promises: the bounds of the second byte, how many
bytes follow the second, and the bits the leading byte contributes. -/
structure Lead where
  low : UInt8
  high : UInt8
  more : Nat
  bits : Nat
deriving Repr, DecidableEq

/-- The promise of a byte that starts a sequence of two to four bytes. The bounds of the
second byte keep out overlong forms, surrogates and values above U+10FFFF. -/
def lead? (b : UInt8) : Option Lead :=
  if 0xC2 ≤ b ∧ b ≤ 0xDF then some ⟨0x80, 0xBF, 0, b.toNat - 0xC0⟩
  else if b = 0xE0 then some ⟨0xA0, 0xBF, 1, 0⟩
  else if b = 0xED then some ⟨0x80, 0x9F, 1, 0xD⟩
  else if 0xE1 ≤ b ∧ b ≤ 0xEF then some ⟨0x80, 0xBF, 1, b.toNat - 0xE0⟩
  else if b = 0xF0 then some ⟨0x90, 0xBF, 2, 0⟩
  else if 0xF1 ≤ b ∧ b ≤ 0xF3 then some ⟨0x80, 0xBF, 2, b.toNat - 0xF0⟩
  else if b = 0xF4 then some ⟨0x80, 0x8F, 2, 4⟩
  else none

/-- A byte that continues a sequence. -/
def isTrail (b : UInt8) : Bool := 0x80 ≤ b && b ≤ 0xBF

/-- Read `n` more continuation bytes onto the bits gathered so far. -/
def trail : Nat → Nat → List UInt8 → Option Char × List UInt8
  | 0, bits, rest => (some (Char.ofNat bits), rest)
  | _ + 1, _, [] => (none, [])
  | n + 1, bits, b :: rest =>
    if isTrail b then trail n (bits * 64 + (b.toNat - 0x80)) rest else (none, b :: rest)

/-- The scalar spelled by `b` and the bytes after it, or `none` for an ill-formed part,
with what is left. -/
def next (b : UInt8) (rest : List UInt8) : Option Char × List UInt8 :=
  if b < 0x80 then (some (Char.ofNat b.toNat), rest)
  else match lead? b, rest with
    | some l, c :: rest' =>
      if l.low ≤ c ∧ c ≤ l.high then trail l.more (l.bits * 64 + (c.toNat - 0x80)) rest'
      else (none, rest)
    | some _, [] => (none, [])
    | none, _ => (none, rest)

theorem trail_length_le (n bits : Nat) (rest : List UInt8) :
    (trail n bits rest).2.length ≤ rest.length := by
  induction n generalizing bits rest with
  | zero => simp [trail]
  | succ n ih =>
    cases rest with
    | nil => simp [trail]
    | cons b rest =>
      rw [trail]
      split
      · exact Nat.le_trans (ih _ rest) (Nat.le_succ _)
      · exact Nat.le_refl _

/-- Every part takes at least its first byte. -/
theorem next_length_le (b : UInt8) (rest : List UInt8) :
    (next b rest).2.length ≤ rest.length := by
  unfold next
  split
  · exact Nat.le_refl _
  · split
    · split
      · exact Nat.le_trans (trail_length_le _ _ _) (Nat.le_succ _)
      · exact Nat.le_refl _
    · exact Nat.le_refl _
    · exact Nat.le_refl _

/-- The parts of a byte string in order: a scalar, or `none` for an ill-formed part. -/
def parts : List UInt8 → List (Option Char)
  | [] => []
  | b :: rest => (next b rest).1 :: parts (next b rest).2
termination_by bytes => bytes.length
decreasing_by exact Nat.lt_succ_of_le (next_length_le b rest)

/-- The replacement character, written for an ill-formed part. -/
def replacement : Char := '\uFFFD'

/-- `text` followed by the text of the bytes. -/
def decodeOnto (text : String) : List UInt8 → String
  | [] => text
  | b :: rest => decodeOnto (text.push ((next b rest).1.getD replacement)) (next b rest).2
termination_by bytes => bytes.length
decreasing_by exact Nat.lt_succ_of_le (next_length_le b rest)

/-- The text of any byte string, with one replacement character per ill-formed part. -/
def decode (bytes : List UInt8) : String := decodeOnto "" bytes

/-- No part is ill-formed. -/
def isValid : List UInt8 → Bool
  | [] => true
  | b :: rest => (next b rest).1.isSome && isValid (next b rest).2
termination_by bytes => bytes.length
decreasing_by exact Nat.lt_succ_of_le (next_length_le b rest)

theorem toList_decodeOnto (text : String) (bytes : List UInt8) :
    (decodeOnto text bytes).toList = text.toList ++ (parts bytes).map (·.getD replacement) := by
  fun_induction decodeOnto text bytes with
  | case1 text => simp [parts]
  | case2 text b rest ih => simp [ih, parts]

/-- Decoding writes the parts in order, each ill-formed one as a replacement character. -/
theorem toList_decode (bytes : List UInt8) :
    (decode bytes).toList = (parts bytes).map (·.getD replacement) := by
  simp [decode, toList_decodeOnto]

theorem isValid_eq_all (bytes : List UInt8) : isValid bytes = (parts bytes).all (·.isSome) := by
  fun_induction isValid bytes with
  | case1 => simp [parts]
  | case2 b rest ih => simp [ih, parts]

/-- The text of a well-formed byte string. -/
def decode? (bytes : List UInt8) : Option String :=
  if isValid bytes then some (decode bytes) else none

/-- The bytes of a text. -/
def encode (text : String) : List UInt8 := text.toList.flatMap String.utf8EncodeChar

end ScalaLex.Utf8
