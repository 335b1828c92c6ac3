import Mathlib
import ScalaLex.Source.File

/-!
# Names of Scala sources

The lower case of a name is a matter of all characters, while a search looks at the case of ASCII
letters alone. For a word of ASCII letters without `i` and `k` the two come to the same
(`Text.lowercase_eq_iff`), as each of these is the lower case of its capital and of nothing else
(`Text.lowerAfter_cons_eq_iff`). So a path has the extension of Scala sources in lower case just if
it has it up to the case of ASCII letters (`SourceFile.lowerExtension?_eq_iff`).
-/

namespace ScalaLex

namespace Text

variable {c w : Char}

/-! ## Letters with one capital -/

/-- A small ASCII letter that is the lower case of its capital and of nothing else. -/
def isOwnLower (w : Char) : Bool := 'a' ≤ w && w ≤ 'z' && w != 'i' && w != 'k'

/-- These are the small Latin letters but those two that other characters have as their lower case.
-/
theorem isOwnLower_iff : isOwnLower w = true ↔
    0x61 ≤ w.toNat ∧ w.toNat ≤ 0x7A ∧ w ≠ 'i' ∧ w ≠ 'k' := by
  simp only [isOwnLower, Bool.and_eq_true, decide_eq_true_eq, bne_iff_ne, and_assoc]
  rfl

/-- But for the capitals of ASCII and the kelvin sign no run leads to an ASCII letter. -/
theorem lower_of_mem_caseRuns : ∀ r ∈ caseRuns,
    r = ⟨0x41, 0x5A, 1, 32⟩ ∨ r = ⟨0x212A, 0x212A, 1, -8383⟩ ∨
      0x7A < (r.first : Int) + r.shift := by
  decide +kernel

theorem lowerChar_capital : ∀ n < 26,
    lowerChar (Char.ofNat (0x41 + n)) = [Char.ofNat (0x61 + n)] := by decide

theorem lowerChar_small : ∀ n < 26,
    lowerChar (Char.ofNat (0x61 + n)) = [Char.ofNat (0x61 + n)] := by decide

theorem toLower_capital : ∀ n < 26, (Char.ofNat (0x41 + n)).toLower = Char.ofNat (0x61 + n) := by
  decide

theorem toLower_of_not_capital (h : ¬(0x41 ≤ c.toNat ∧ c.toNat ≤ 0x5A)) : c.toLower = c := by
  refine Char.toLower_eq_of_not_isUpper fun hupper => h ?_
  simpa [Char.isUpper, UInt32.le_iff_toNat_le] using hupper

/-- A character of a block of letters has a number in it. -/
theorem exists_ofNat_eq {base : Nat} (h : base ≤ c.toNat) (h' : c.toNat < base + 26) :
    ∃ n < 26, c = Char.ofNat (base + n) :=
  ⟨c.toNat - base, by omega, by rw [Nat.add_sub_cancel' h, Char.ofNat_toNat]⟩

/-- A character that is one of these letters up to ASCII case has it as its lower case. -/
theorem lowerChar_of_toLower (hw : isOwnLower w = true) (h : c.toLower = w) :
    lowerChar c = [w] := by
  by_cases hc : 0x41 ≤ c.toNat ∧ c.toNat ≤ 0x5A
  · obtain ⟨n, hn, rfl⟩ := exists_ofNat_eq hc.1 (by omega)
    rw [← h, toLower_capital n hn, lowerChar_capital n hn]
  · rw [toLower_of_not_capital hc] at h
    subst h
    obtain ⟨hle, hge, -⟩ := isOwnLower_iff.1 hw
    obtain ⟨n, hn, rfl⟩ := exists_ofNat_eq hle (by omega)
    exact lowerChar_small n hn

/-- No character outside ASCII has one of these letters as its lower case. -/
theorem toLower_of_lowerChar (hw : isOwnLower w = true) (h : (lowerChar c).head? = some w) :
    c.toLower = w := by
  by_cases hc : 0x41 ≤ c.toNat ∧ c.toNat ≤ 0x5A
  · obtain ⟨n, hn, rfl⟩ := exists_ofNat_eq hc.1 (by omega)
    rw [lowerChar_capital n hn] at h
    rw [toLower_capital n hn]
    exact Option.some.inj h
  rw [toLower_of_not_capital hc]
  obtain ⟨hle, hge, hi, hk⟩ := isOwnLower_iff.1 hw
  rw [lowerChar] at h
  split at h
  · exact absurd (Option.some.inj h).symm hi
  split at h
  · rename_i r hfind
    have hholds : r.holds c = true := by simpa using List.find?_some hfind
    have hlower : Char.ofNat ((c.toNat : Int) + r.shift).toNat = w := Option.some.inj h
    simp only [CaseRun.holds, Bool.and_eq_true, decide_eq_true_eq] at hholds
    obtain ⟨⟨hfirst, hlast⟩, -⟩ := hholds
    rcases lower_of_mem_caseRuns r (List.mem_of_find?_eq_some hfind) with rfl | rfl | hlarge
    · exact absurd ⟨hfirst, hlast⟩ hc
    · have hkelvin : c.toNat = 0x212A := Nat.le_antisymm hlast hfirst
      rw [hkelvin] at hlower
      exact absurd hlower.symm hk
    · have hsize := congrArg Char.toNat hlower
      rw [Char.toNat_ofNat] at hsize
      split at hsize <;> omega
  · exact Option.some.inj h

/-! ## Words in lower case -/

theorem lowerChar_ne_nil (c : Char) : lowerChar c ≠ [] := by
  unfold lowerChar
  repeat' split
  all_goals exact List.cons_ne_nil _ _

theorem lowerAfter_ne_nil (before rest : List Char) : lowerAfter before (c :: rest) ≠ [] := by
  rw [lowerAfter]
  refine List.append_ne_nil_of_left_ne_nil ?_ _
  split
  · split <;> exact List.cons_ne_nil _ _
  · exact lowerChar_ne_nil c

/-- The lower case of a text starts with such a letter just if the ASCII lower case does. -/
theorem lowerAfter_cons_eq_iff (hw : isOwnLower w = true) (before rest ws : List Char) :
    lowerAfter before (c :: rest) = w :: ws ↔
      c.toLower = w ∧ lowerAfter (c :: before) rest = ws := by
  by_cases hc : c = 'Σ'
  · -- both lower cases of sigma are beyond ASCII
    have hge := (isOwnLower_iff.1 hw).2.1
    subst hc
    refine iff_of_false (fun h => ?_) fun h => ?_
    · rw [lowerAfter, if_pos rfl] at h
      split at h <;> rw [← (List.cons.inj h).1] at hge <;> exact absurd hge (by decide)
    · rw [← h.1] at hge
      exact absurd hge (by decide)
  rw [lowerAfter, if_neg hc]
  constructor
  · intro h
    have hlower : c.toLower = w := by
      refine toLower_of_lowerChar hw ?_
      rw [← List.head?_append_of_ne_nil _ (lowerChar_ne_nil c), h, List.head?_cons]
    rw [lowerChar_of_toLower hw hlower] at h
    exact ⟨hlower, (List.cons.inj h).2⟩
  · rintro ⟨hlower, rfl⟩
    rw [lowerChar_of_toLower hw hlower]
    rfl

/-- Lower case agrees with one of these words just if ASCII case alone tells them apart. -/
theorem lowerAfter_eq_iff {word : List Char} (hword : ∀ w ∈ word, isOwnLower w = true)
    (before cs : List Char) : lowerAfter before cs = word ↔ cs.map Char.toLower = word := by
  induction word generalizing before cs with
  | nil =>
    cases cs with
    | nil => simp [lowerAfter]
    | cons c rest => exact iff_of_false (lowerAfter_ne_nil before rest) (List.cons_ne_nil _ _)
  | cons w ws ih =>
    obtain ⟨hw, hws⟩ := List.forall_mem_cons.1 hword
    cases cs with
    | nil => simp [lowerAfter]
    | cons c rest =>
      rw [lowerAfter_cons_eq_iff hw, ih hws, List.map_cons, List.cons.injEq]

/-- The lower case of a text is such a word just if the two are equal up to the case of ASCII
letters. -/
theorem lowercase_eq_iff {word : String} (hword : word.toList.all isOwnLower = true)
    (text : String) : lowercase text = word ↔ eqIgnoreAsciiCase word text = true := by
  rw [List.all_eq_true] at hword
  have hself : word.toList.map Char.toLower = word.toList := by
    refine (List.map_congr_left fun w hw => ?_).trans (List.map_id _)
    have hsmall := (isOwnLower_iff.1 (hword w hw)).1
    exact toLower_of_not_capital (by omega)
  rw [lowercase, eqIgnoreAsciiCase, hself, beq_iff_eq, eq_comm (a := word.toList),
    ← lowerAfter_eq_iff hword [], ← String.toList_inj, String.toList_ofList]

end Text

namespace SourceFile

/-- The path has the extension of Scala sources, up to the case of ASCII letters. -/
def HasScalaExtension (path : String) : Prop :=
  ∃ extension, Path.extension? path = some extension ∧
    Text.eqIgnoreAsciiCase scalaExtension extension = true

/-- The Scala extension in lower case is the Scala extension up to ASCII case. -/
theorem lowerExtension?_eq_iff (path : String) :
    lowerExtension? path = some scalaExtension ↔ HasScalaExtension path := by
  rw [lowerExtension?, Option.map_eq_some_iff, HasScalaExtension]
  refine exists_congr fun extension => and_congr_right fun _ => ?_
  exact Text.lowercase_eq_iff (by decide) extension

end SourceFile

end ScalaLex
