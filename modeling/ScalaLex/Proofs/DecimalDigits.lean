import ScalaLex.Decimal.Natural

/-!
# Decimal digits

The digits in which a number is written (`Nat.toDigits 10`) : they are digits and nothing else, at
least one of them, and only zero starts with a zero (`isCount_toDigits`). The number is read back
from them (`ofDigits?_toDigits`).
-/

namespace ScalaLex.Natural

variable {c d separator : Char} {chars : List Char}

/-- Decimal digits, one or more, with no needless zero in front. -/
structure IsCount (ds : List Char) : Prop where
  isDigit : ∀ d ∈ ds, d.isDigit = true
  ne_nil : ds ≠ []
  zero : ds.head? = some '0' → ds = ['0']

theorem ne_of_isDigit (h : d.isDigit = true) (hc : c.isDigit = false) : d ≠ c := by
  rintro rfl
  rw [h] at hc
  cases hc

/-- Only zero starts with the digit zero. -/
theorem head?_toDigits (n : Nat) (h : (Nat.toDigits 10 n).head? = some '0') : n = 0 := by
  induction n using Nat.strongRecOn with
  | ind n ih =>
    by_cases hsmall : n < 10
    · have hdigit : ∀ n < 10, Nat.digitChar n = '0' → n = 0 := by decide
      rw [Nat.toDigits_of_lt_base hsmall] at h
      exact hdigit n hsmall (Option.some.inj h)
    · have hlast := Nat.toDigits_of_base_le (b := 10) (by decide) (Nat.le_of_not_lt hsmall)
      have hne : Nat.toDigits 10 (n / 10) ≠ [] := Nat.toDigits_ne_nil
      obtain ⟨d, ds, hds⟩ := List.exists_cons_of_ne_nil hne
      rw [hlast, hds] at h
      have := ih (n / 10) (by omega) (by rw [hds]; exact h)
      omega

/-- The digits of a number have no needless zero in front. -/
theorem isCount_toDigits (n : Nat) : IsCount (Nat.toDigits 10 n) where
  isDigit := fun _ => Nat.isDigit_of_mem_toDigits (by decide) (by decide)
  ne_nil := Nat.toDigits_ne_nil
  zero := fun h => by rw [head?_toDigits n h]; rfl

/-- Nothing but digits is among them. -/
theorem not_mem_toDigits (h : separator.isDigit = false) {n : Nat} :
    separator ∉ Nat.toDigits 10 n := fun hmem =>
  ne_of_isDigit ((isCount_toDigits n).isDigit _ hmem) h rfl

theorem toList_toString (n : UInt32) : (toString n).toList = Nat.toDigits 10 n.toNat :=
  Nat.toList_repr

theorem ofDigitsOnto_eq_some (n : Nat) (h : ∀ char ∈ chars, char.isDigit = true) :
    ofDigitsOnto n chars = some (Nat.ofDigitChars 10 chars n) := by
  induction chars generalizing n with
  | nil => rfl
  | cons char chars ih =>
    rw [List.forall_mem_cons] at h
    rw [ofDigitsOnto, if_pos h.1, ih _ h.2, Nat.ofDigitChars_cons, Nat.mul_comm 10]

/-- A number is read from its digits. -/
theorem ofDigits?_toDigits (n : Nat) : ofDigits? (Nat.toDigits 10 n) = some n := by
  obtain ⟨hdigits, hne, -⟩ := isCount_toDigits n
  obtain ⟨char, chars, hn⟩ := List.exists_cons_of_ne_nil hne
  rw [hn] at hdigits
  rw [hn, ofDigits?, ofDigitsOnto_eq_some 0 hdigits, ← hn,
    Nat.ofDigitChars_toDigits (by decide) (by decide)]
  exact List.cons_ne_nil char chars

end ScalaLex.Natural
