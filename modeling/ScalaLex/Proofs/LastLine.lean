import Mathlib.Data.List.DropRight
import ScalaLex.Proofs.LineEnds

/-!
# The last line

The last line of a source is read off the normalized source (`lastLine`). It comes behind a line
feed or at the front, and only the line feed that ends it comes behind it (`exists_lastLine`), so
it is the line of the last byte (`lineAt_last`). When a byte is put behind a text, the last line
changes by that byte, or starts anew behind a line feed (`lastLine_append`, `openLine_append_lf`).
-/

namespace ScalaLex

variable {s text : List UInt8} {b : UInt8}

/-- A space or a tab. -/
def Byte.isGap (b : UInt8) : Bool := b == 0x20 || b == 0x09

/-- The bytes behind the last line feed. -/
def openLine (text : List UInt8) : List UInt8 := text.rtakeWhile (· != Byte.lf)

/-- The last line of a normalized text, without the line feed that ends it. -/
def lastLine (text : List UInt8) : List UInt8 :=
  openLine (if text.getLast? = some Byte.lf then text.dropLast else text)

/-- The last byte of a line that is neither space nor tab. -/
def lastMark (line : List UInt8) : Option UInt8 := (line.filter fun b => !Byte.isGap b).getLast?

theorem openLine_append_lf (s : List UInt8) : openLine (s ++ [Byte.lf]) = [] :=
  List.rtakeWhile_concat_neg _ _ _ (by decide)

/-- Any byte but a line feed goes on with the line that is open. -/
theorem openLine_append (hb : b ≠ Byte.lf) (s : List UInt8) :
    openLine (s ++ [b]) = openLine s ++ [b] :=
  List.rtakeWhile_concat_pos _ _ _ (by simpa using hb)

/-- A line feed ends the line that was open, and this is then the last one. -/
theorem lastLine_append_lf (s : List UInt8) : lastLine (s ++ [Byte.lf]) = openLine s := by
  simp [lastLine]

/-- Any other byte is the last one of its line. -/
theorem lastLine_append (hb : b ≠ Byte.lf) (s : List UInt8) :
    lastLine (s ++ [b]) = openLine s ++ [b] := by
  rw [lastLine, if_neg (by simpa using hb), openLine_append hb]

theorem lastLine_eq_openLine (h : s.getLast? ≠ some Byte.lf) : lastLine s = openLine s := by
  rw [lastLine, if_neg h]

theorem openLine_eq_nil (h : s.getLast? = some Byte.lf) : openLine s = [] := by
  obtain ⟨s, rfl⟩ := List.getLast?_eq_some_iff.1 h
  exact openLine_append_lf s

/-- A byte that is no gap is the last mark. -/
theorem lastMark_append (line : List UInt8) (b : UInt8) :
    lastMark (line ++ [b]) = if Byte.isGap b then lastMark line else some b := by
  cases hb : Byte.isGap b <;> simp [lastMark, List.filter_append, hb]

/-- The line that is open starts the text or stands behind a line feed, and has none in it. -/
theorem exists_openLine (text : List UInt8) : ∃ before, text = before ++ openLine text ∧
    (before = [] ∨ before.getLast? = some Byte.lf) ∧ Byte.lf ∉ openLine text := by
  induction text using List.reverseRecOn with
  | nil => exact ⟨[], rfl, Or.inl rfl, List.not_mem_nil⟩
  | append_singleton s b ih =>
    by_cases hb : b = Byte.lf
    · rw [hb, openLine_append_lf]
      exact ⟨s ++ [Byte.lf], (List.append_nil _).symm, by simp, List.not_mem_nil⟩
    · obtain ⟨before, hs, hbefore, hlf⟩ := ih
      rw [openLine_append hb]
      refine ⟨before, by rw [← List.append_assoc, ← hs], hbefore, ?_⟩
      simp [hlf, Ne.symm hb]

/-- The line feed that ends a text, if there is one. -/
def lastEnd (text : List UInt8) : List UInt8 :=
  if text.getLast? = some Byte.lf then [Byte.lf] else []

/-- The last line comes behind a line feed or at the front, and only a line feed comes behind
it. -/
theorem exists_lastLine (text : List UInt8) :
    ∃ before, text = before ++ lastLine text ++ lastEnd text ∧
      (before = [] ∨ before.getLast? = some Byte.lf) ∧ Byte.lf ∉ lastLine text := by
  unfold lastEnd
  by_cases hlf : text.getLast? = some Byte.lf
  · obtain ⟨s, rfl⟩ := List.getLast?_eq_some_iff.1 hlf
    obtain ⟨before, hs, hbefore⟩ := exists_openLine s
    rw [if_pos hlf, lastLine_append_lf]
    exact ⟨before, by rw [← hs], hbefore⟩
  · obtain ⟨before, hs, hbefore⟩ := exists_openLine text
    rw [if_neg hlf, lastLine_eq_openLine hlf]
    exact ⟨before, by rw [List.append_nil, ← hs], hbefore⟩

/-- The line feeds before the last line number it. -/
theorem lineAt_last {source before : List UInt8}
    (h : normalize source = before ++ lastLine (normalize source) ++ lastEnd (normalize source))
    (hlf : Byte.lf ∉ lastLine (normalize source)) :
    lineAt source (source.length - 1) = 1 + before.count Byte.lf := by
  have hcount := count_lf_normalize source
  rw [h, List.count_append, List.count_append, List.count_eq_zero.2 hlf, Nat.add_zero] at hcount
  rw [lineAt]
  cases hlast : source.getLast? with
  | none =>
    rw [List.getLast?_eq_none_iff.1 hlast, List.length_nil, lineEndsBefore_zero] at hcount
    rw [List.getLast?_eq_none_iff.1 hlast, List.length_nil, lineEndsBefore_zero]
    omega
  | some b =>
    have hlen : source.length = source.length - 1 + 1 := by
      have := List.length_pos_iff.2 (List.getLast?_isSome.1 (by rw [hlast]; rfl))
      omega
    have hend : (lastEnd (normalize source)).count Byte.lf = (isLineEnd b).toNat := by
      rw [lastEnd, getLast?_normalize, hlast]
      by_cases hcr : b = Byte.cr
      · rw [hcr]
        rfl
      by_cases hb : b = Byte.lf
      · rw [hb]
        rfl
      · have hself : (if b == Byte.cr then Byte.lf else b) = b := by simp [hcr]
        rw [Option.map_some, hself, if_neg (by simpa using hb), isLineEnd,
          beq_false_of_ne hcr, beq_false_of_ne hb]
        rfl
    rw [hlen, lineEndsBefore_succ, endsLineAt_last hlast, hend] at hcount
    omega

end ScalaLex
