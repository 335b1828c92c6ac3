import Mathlib
import ScalaLex.Proofs.Listing
import ScalaLex.Source.Size

/-!
# Sizes read back

The size that is shown to people is read back as a number and a unit (`FileSize.ofText?`). The
number is the quotient of the size by the unit, rounded to two places, so it is off by half a place
at most (`Fixed.abs_value_sub_le`).

The unit is chosen before the quotient is rounded. So the number may reach 1024 of a unit that has a
next one (`reaches_next_unit`), and it does just if the quotient is within half a place of it
(`size_of_text`).
-/

namespace ScalaLex

variable {num den m size : ℕ} {chars : List Char} {separator : Char}

/-! ## Readers -/

/-- The value of a decimal : digits, and places behind a point if there is one. -/
def Fixed.ofText? (chars : List Char) : Option ℚ :=
  match Text.cut? '.' chars with
  | none => (Natural.ofDigits? chars).map fun n => (n : ℚ)
  | some (whole, places) => do
    let n ← Natural.ofDigits? whole
    let fraction ← Natural.ofDigits? places
    return n + fraction / 10 ^ places.length

namespace FileSize

/-- The unit of a name. -/
def unitOfName? (name : List Char) : Option ℕ :=
  (List.range 4).find? fun u => (unitName u).toList == name

/-- The number and the unit that a shown size tells. -/
def ofText? (text : String) : Option (ℚ × ℕ) := do
  let (number, name) ← Text.cut? ' ' text.toList
  return (← Fixed.ofText? number, ← unitOfName? name)

end FileSize

/-! ## Rounded quotients -/

/-- A rounded quotient is off by a half at most. -/
theorem roundDiv_mul_bounds (num : ℕ) (h : 0 < den) : 2 * num ≤ 2 * (den * roundDiv num den) + den ∧
    2 * (den * roundDiv num den) ≤ 2 * num + den := by
  have hsplit := Nat.div_add_mod num den
  have hlt := Nat.mod_lt num h
  simp only [roundDiv]
  split
  · omega
  split
  · rw [Nat.mul_add]
    omega
  · rcases Nat.mod_two_eq_zero_or_one (num / den) with heven | hodd
    · rw [heven, Nat.add_zero]
      omega
    · rw [hodd, Nat.mul_add]
      omega

/-- A half goes to the even neighbour, so an even number is reached from half below it on. -/
theorem le_roundDiv_iff (num : ℕ) (h : 0 < den) (hm : m % 2 = 0) :
    m ≤ roundDiv num den ↔ 2 * (den * m) ≤ 2 * num + den := by
  have hsplit := Nat.div_add_mod num den
  have hlt := Nat.mod_lt num h
  simp only [roundDiv]
  rcases Nat.lt_trichotomy m (num / den + 1) with hbelow | rfl | habove
  · have hmul : den * m ≤ den * (num / den) := Nat.mul_le_mul_left den (by omega)
    split_ifs <;> omega
  · rw [Nat.mul_add]
    split_ifs <;> omega
  · have hmul : den * (num / den + 2) ≤ den * m := Nat.mul_le_mul_left den habove
    rw [Nat.mul_add] at hmul
    split_ifs <;> omega

/-- The value of a quotient that is written with two places. -/
def Fixed.value (num den : ℕ) : ℚ := roundDiv (num * 100) den / 100

namespace Fixed

/-- Two places are off by half a place at most. -/
theorem abs_value_sub_le (num : ℕ) (h : 0 < den) : |value num den - num / den| ≤ 1 / 200 := by
  have hden : (0 : ℚ) < den := by exact_mod_cast h
  obtain ⟨hlower, hupper⟩ := roundDiv_mul_bounds (num * 100) h
  have hlower : 2 * ((num : ℚ) * 100) ≤ 2 * (den * roundDiv (num * 100) den) + den := by
    exact_mod_cast hlower
  have hupper : 2 * ((den : ℚ) * roundDiv (num * 100) den) ≤ 2 * (num * 100) + den := by
    exact_mod_cast hupper
  have hscale : value num den - num / den =
      (2 * (den * roundDiv (num * 100) den) - 2 * (num * 100)) / (200 * den) := by
    rw [value]
    field_simp
    ring
  rw [hscale, abs_div, abs_of_pos (by positivity : (0 : ℚ) < 200 * den),
    div_le_iff₀ (by positivity), abs_le]
  constructor <;> linarith

/-- An integer is reached from half a place below it on. -/
theorem le_value_iff (num : ℕ) (h : 0 < den) (m : ℕ) :
    (m : ℚ) ≤ value num den ↔ (m : ℚ) - 1 / 200 ≤ num / den := by
  have hden : (0 : ℚ) < den := by exact_mod_cast h
  have heven : m * 100 % 2 = 0 := by omega
  calc (m : ℚ) ≤ value num den
      ↔ ((m * 100 : ℕ) : ℚ) ≤ roundDiv (num * 100) den := by
        rw [value, le_div_iff₀ (by norm_num)]
        push_cast
        rfl
    _ ↔ 2 * (den * (m * 100)) ≤ 2 * (num * 100) + den := by
        rw [Nat.cast_le, le_roundDiv_iff (num * 100) h heven]
    _ ↔ ((2 * (den * (m * 100)) : ℕ) : ℚ) ≤ (2 * (num * 100) + den : ℕ) := Nat.cast_le.symm
    _ ↔ (m : ℚ) - 1 / 200 ≤ num / den := by
        rw [le_div_iff₀ hden]
        push_cast
        constructor <;> intro <;> linarith

/-- An integer that the quotient does not pass is not passed. -/
theorem value_le {m : ℕ} (h : 0 < den) (hle : num ≤ den * m) : value num den ≤ m := by
  have hround : roundDiv (num * 100) den ≤ m * 100 := by
    by_contra hpassed
    have hmul := Nat.mul_le_mul_left den (Nat.lt_of_not_le hpassed)
    have hupper := (roundDiv_mul_bounds (num * 100) h).2
    rw [Nat.mul_succ, ← Nat.mul_assoc] at hmul
    omega
  rw [value, div_le_iff₀ (by norm_num)]
  exact_mod_cast hround

end Fixed

/-! ## Decimals -/

theorem Text.cut?_eq_none (h : separator ∉ chars) : cut? separator chars = none := by
  have hall : chars.dropWhile (· != separator) = [] :=
    List.dropWhile_eq_nil_iff.2 fun c hc => bne_iff_ne.2 fun heq => h (heq ▸ hc)
  rw [cut?, hall]

theorem Fixed.ofText?_toDigits (n : ℕ) : ofText? (Nat.toDigits 10 n) = some (n : ℚ) := by
  rw [ofText?, Text.cut?_eq_none (Natural.not_mem_toDigits rfl)]
  simp [Natural.ofDigits?_toDigits]

/-- Two digits below a hundred. -/
theorem Fixed.exists_places (n : ℕ) : ∃ places,
    (hundredths n).toList = Nat.toDigits 10 (n / 100) ++ '.' :: places ∧
      (∀ d ∈ places, d.isDigit = true) ∧ places.length = 2 ∧
      Natural.ofDigits? places = some (n % 100) := by
  have hplaces : ∀ m < 100,
      (if m < 10 then "0" ++ toString m else toString m).toList.all Char.isDigit = true ∧
        (if m < 10 then "0" ++ toString m else toString m).toList.length = 2 ∧
        Natural.ofDigits? (if m < 10 then "0" ++ toString m else toString m).toList = some m := by
    decide +kernel
  obtain ⟨hdigits, hvalue⟩ := hplaces (n % 100) (Nat.mod_lt n (by decide))
  exact ⟨_, by simp [hundredths], List.all_eq_true.1 hdigits, hvalue⟩

theorem Fixed.ofText?_hundredths (n : ℕ) :
    ofText? (hundredths n).toList = some ((n : ℚ) / 100) := by
  obtain ⟨places, htext, -, hlength, hvalue⟩ := exists_places n
  have hsplit : (n : ℚ) = 100 * (n / 100 : ℕ) + (n % 100 : ℕ) := by
    exact_mod_cast (Nat.div_add_mod n 100).symm
  rw [htext, ofText?, Text.cut?_append (Natural.not_mem_toDigits rfl)]
  simp only [Natural.ofDigits?_toDigits, hvalue, hlength, Option.bind_eq_bind, Option.bind_some,
    Option.pure_def, Option.some.injEq]
  rw [hsplit]
  ring

theorem Fixed.ofText?_quotient (num den : ℕ) :
    ofText? (quotient num den).toList = some (value num den) :=
  ofText?_hundredths _

theorem Fixed.space_not_mem_hundredths (n : ℕ) : ' ' ∉ (hundredths n).toList := by
  obtain ⟨places, htext, hdigits, -, -⟩ := exists_places n
  have hplaces : ' ' ∉ places := fun hmem => absurd (hdigits ' ' hmem) (by decide)
  have hwhole : ' ' ∉ Nat.toDigits 10 (n / 100) := Natural.not_mem_toDigits rfl
  simp [htext, hplaces, hwhole]

/-! ## Units -/

namespace FileSize

theorem unitBytes_eq (u : ℕ) : unitBytes u = 1024 ^ u := by
  induction u with
  | zero => rfl
  | succ u ih => rw [unitBytes, ih, Nat.pow_succ, Nat.mul_comm]

theorem unitOfName?_unitName {u : ℕ} (h : u ≤ 3) : unitOfName? (unitName u).toList = some u := by
  have hall : ∀ u ≤ 3, unitOfName? (unitName u).toList = some u := by decide
  exact hall u h

/-- A size is told in the largest unit that it reaches. -/
theorem unit_bounds (h : size < 2 ^ 53) : unit size ≤ 3 ∧
    (unit size < 3 → size < 1024 ^ (unit size + 1)) ∧
    (0 < unit size → 1024 ^ unit size ≤ size) := by
  have hrounded : toBinary53 size = size := toBinary53_eq_self (by simpa using h)
  simp only [unit, hrounded, unitBytes_eq]
  split_ifs <;> omega

/-! ## Sizes -/

theorem ofText?_append {number : String} {x : ℚ} {u : ℕ}
    (hnumber : Fixed.ofText? number.toList = some x) (hspace : ' ' ∉ number.toList) (hu : u ≤ 3) :
    ofText? (number ++ " " ++ unitName u) = some (x, u) := by
  have hcut : Text.cut? ' ' (number ++ " " ++ unitName u).toList =
      some (number.toList, (unitName u).toList) := by
    simpa using Text.cut?_append hspace (unitName u).toList
  rw [ofText?, hcut]
  simp [hnumber, unitOfName?_unitName hu]

/-- A shown size is a number of bytes, or a quotient by a larger unit with two places. -/
theorem text_cases (h : size < 2 ^ 53) :
    (unit size = 0 ∧ ofText? (text size) = some ((size : ℚ), 0)) ∨
    (0 < unit size ∧ ofText? (text size) =
      some (Fixed.value size (1024 ^ unit size), unit size)) := by
  obtain ⟨hunit, -, -⟩ := unit_bounds h
  have hrounded : toBinary53 size = size := toBinary53_eq_self (by simpa using h)
  rcases Nat.eq_zero_or_pos (unit size) with hzero | hpos
  · have htext : text size = toString size ++ " " ++ unitName 0 := by simp [text, hzero]
    have hdigits : (toString size).toList = Nat.toDigits 10 size := Nat.toList_repr
    refine .inl ⟨hzero, ?_⟩
    rw [htext]
    refine ofText?_append ?_ ?_ (Nat.zero_le 3)
    · rw [hdigits, Fixed.ofText?_toDigits]
    · rw [hdigits]
      exact Natural.not_mem_toDigits rfl
  · refine .inr ⟨hpos, ?_⟩
    simp only [text, hpos.ne', if_false, hrounded, unitBytes_eq]
    exact ofText?_append (Fixed.ofText?_quotient _ _) (Fixed.space_not_mem_hundredths _) hunit

/-- A shown size is off by half a place at most. It is one or more of its unit, and no more than
1024 of a unit that has a next one. It is 1024 of such a unit just if the size is within half a
place of the next one. -/
theorem size_of_text (h : size < 2 ^ 53) : ∃ x u, ofText? (text size) = some (x, u) ∧ u ≤ 3 ∧
    |x - size / 1024 ^ u| ≤ 1 / 200 ∧ (0 < u → 1 ≤ x) ∧ (u < 3 → x ≤ 1024) ∧
    (u < 3 → (x < 1024 ↔ (size : ℚ) / 1024 ^ u < 1024 - 1 / 200)) := by
  obtain ⟨hunit, hbelow, habove⟩ := unit_bounds h
  rcases text_cases h with ⟨hzero, htext⟩ | ⟨hpos, htext⟩
  · have hsize : (size : ℚ) ≤ 1023 := by
      rw [hzero] at hbelow
      have := hbelow (by decide)
      exact_mod_cast Nat.le_of_lt_succ this
    refine ⟨size, 0, htext, Nat.zero_le 3, by norm_num, by simp, fun _ => by linarith, fun _ => ?_⟩
    rw [pow_zero, div_one]
    constructor <;> intro <;> linarith
  · generalize unit size = u at *
    have hden : 0 < 1024 ^ u := by positivity
    have hvalue := Fixed.le_value_iff size hden
    have hdiff := Fixed.abs_value_sub_le size hden
    push_cast at hvalue hdiff
    refine ⟨_, u, htext, hunit, hdiff, fun _ => ?_, fun hnext => ?_, fun hnext => ?_⟩
    · have hreach : (1 : ℚ) ≤ size / 1024 ^ u := by
        rw [one_le_div (by positivity)]
        exact_mod_cast habove hpos
      have := (hvalue 1).2 (by push_cast; linarith)
      exact_mod_cast this
    · have hpass : size ≤ 1024 ^ u * 1024 := Nat.le_of_lt (hbelow hnext)
      exact_mod_cast Fixed.value_le hden hpass
    · have := not_congr (hvalue 1024)
      push_cast at this
      rwa [not_le, not_le] at this

/-- Just below the next unit a size is told as 1024 of its own. -/
theorem size_of_text_below_gigabyte : 1073741823 < 2 ^ 53 ∧
    ∃ x u, ofText? (text 1073741823) = some (x, u) ∧ u ≤ 3 ∧
      |x - (1073741823 : ℕ) / 1024 ^ u| ≤ 1 / 200 ∧ (0 < u → 1 ≤ x) ∧ (u < 3 → x ≤ 1024) ∧
      (u < 3 → (x < 1024 ↔ ((1073741823 : ℕ) : ℚ) / 1024 ^ u < 1024 - 1 / 200)) :=
  ⟨by norm_num, size_of_text (by norm_num)⟩

/-- A size that is just below a megabyte is told as 1024 kilobytes. -/
theorem reaches_next_unit : 1048575 < 2 ^ 53 ∧ text 1048575 = "1024.00 KB" ∧
    ofText? (text 1048575) = some (1024, 1) := by
  decide +kernel

end FileSize

end ScalaLex
