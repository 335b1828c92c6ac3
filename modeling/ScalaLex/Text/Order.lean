/-!
# The order of texts

Texts stand in the order of the scalar values of their characters : the first place at
which two texts differ decides, and a text stands before the longer texts it begins.

No text precedes itself (`not_precedes_self`), `precedes` is transitive (`precedes_trans`),
and of two different texts one precedes the other (`precedes_or_precedes`).
-/

namespace ScalaLex.Text

/-- The first list stands before the second one. -/
def precedesChars : List Char → List Char → Bool
  | _, [] => false
  | [], _ :: _ => true
  | a :: as, b :: bs => if a = b then precedesChars as bs else decide (a.toNat < b.toNat)

/-- The first text stands before the second one. -/
def precedes (s t : String) : Bool := precedesChars s.toList t.toList

theorem not_precedesChars_self : ∀ as : List Char, precedesChars as as = false
  | [] => rfl
  | a :: as => by simp [precedesChars, not_precedesChars_self as]

theorem precedesChars_trans : ∀ {as bs cs : List Char}, precedesChars as bs = true →
    precedesChars bs cs = true → precedesChars as cs = true
  | _, [], _, h, _ => by simp [precedesChars] at h
  | _, _ :: _, [], _, h => by simp [precedesChars] at h
  | [], _ :: _, _ :: _, _, _ => by simp [precedesChars]
  | a :: as, b :: bs, c :: cs, hab, hbc => by
    by_cases h : a = b <;> by_cases h' : b = c
    · subst h h'
      simp only [precedesChars, if_true] at hab hbc ⊢
      exact precedesChars_trans hab hbc
    · subst h
      simpa [precedesChars, h'] using hbc
    · subst h'
      simpa [precedesChars, h] using hab
    · simp only [precedesChars, h, h', if_false, decide_eq_true_eq] at hab hbc
      have hne : a ≠ c := by rintro rfl; omega
      simp only [precedesChars, hne, if_false, decide_eq_true_eq]
      omega

theorem precedesChars_or_precedesChars : ∀ {as bs : List Char}, as ≠ bs →
    precedesChars as bs = true ∨ precedesChars bs as = true
  | [], [], h => absurd rfl h
  | [], _ :: _, _ => Or.inl rfl
  | _ :: _, [], _ => Or.inr rfl
  | a :: as, b :: bs, h => by
    by_cases hab : a = b
    · subst hab
      have hne : as ≠ bs := by rintro rfl; exact h rfl
      simpa [precedesChars] using precedesChars_or_precedesChars hne
    · have hne : a.toNat ≠ b.toNat := fun hn => hab (Char.toNat_inj.1 hn)
      simp only [precedesChars, hab, Ne.symm hab, if_false, decide_eq_true_eq]
      omega

theorem not_precedes_self (s : String) : precedes s s = false := not_precedesChars_self s.toList

theorem precedes_trans {r s t : String} (h : precedes r s = true) (h' : precedes s t = true) :
    precedes r t = true := precedesChars_trans h h'

theorem precedes_or_precedes {s t : String} (h : s ≠ t) :
    precedes s t = true ∨ precedes t s = true :=
  precedesChars_or_precedesChars fun hl => h (String.toList_inj.1 hl)

end ScalaLex.Text
