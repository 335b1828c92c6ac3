import Mathlib
import ScalaLex.Proofs.Steps
import ScalaLex.Source.File

/-!
# Two counts of lines

The lines of a source are counted twice : by `countLines`, when a file is read, and by the
machine, which moves its line number on as it scans. `lineCount_eq_countLines` says that
the two agree on every source that is not empty, whatever constructs the scan enters, and
that every file that was read is recorded with the line number its scan ends on.
-/

namespace ScalaLex

theorem scan_number (source : List UInt8) : (Machine.scan source).line.number =
    UInt32.ofNat (lineAt source (source.length - 1)) := by
  rw [Machine.scan, Machine.flush_line, Machine.lineNumber_run]

theorem lineCount_parse (s : Scanner) (elapsed : Span) (source : List UInt8) :
    (s.parse elapsed source).value.last.metrics.lineCount =
      UInt32.ofNat (lineAt source (source.length - 1)) :=
  scan_number source

namespace SourceFile

/-- A file that was read is within the limit and recorded with the count of its lines. -/
theorem lineCount_of_read {prefs : FilePreferences} {t : FileTree} {elapsed : Span}
    {path : String} {f : SourceFile} (h : read prefs t elapsed path = .ok f) :
    f.lineCount = countLines f.bytes ∧ f.bytes.length ≤ FileSize.limit := by
  unfold read at h
  cases hlocate : locate t path with
  | error r => rw [hlocate] at h; cases h
  | ok found =>
    obtain ⟨absolute, content⟩ := found
    rw [hlocate] at h
    cases hcheck : check prefs absolute content with
    | error r => simp [bind, Except.bind, hcheck] at h
    | ok u =>
      simp only [bind, Except.bind, hcheck, pure, Except.pure, Except.ok.injEq] at h
      subst h
      refine ⟨rfl, ?_⟩
      rw [Content.length_toList, ← Nat.not_lt]
      intro hlarge
      rw [check, if_pos hlarge] at hcheck
      cases hcheck

end SourceFile

/-- The count of lines agrees with the line number a scan ends on, for every source that is
not empty and fits the counter; of an empty source they are 0 and 1. A file that was read
is recorded with that count, and the limit on its size makes it fit. -/
theorem lineCount_eq_countLines (s : Scanner) (elapsed : Span) :
    (∀ source : List UInt8, source ≠ [] → source.length + 1 < UInt32.size →
      (s.parse elapsed source).value.last.metrics.lineCount.toNat = countLines source) ∧
    countLines [] = 0 ∧ (s.parse elapsed []).value.last.metrics.lineCount = 1 ∧
    ∀ (prefs : FilePreferences) (t : FileTree) (reading : Span) (path : String) (f : SourceFile),
      SourceFile.read prefs t reading path = .ok f →
        f.lineCount = countLines f.bytes ∧ (f.bytes ≠ [] →
          (s.parse elapsed f.bytes).value.last.metrics.lineCount.toNat = f.lineCount) := by
  have hagree : ∀ source : List UInt8, source ≠ [] → source.length + 1 < UInt32.size →
      (s.parse elapsed source).value.last.metrics.lineCount.toNat = countLines source := by
    intro source hne hlen
    rw [lineCount_parse, Machine.toNat_ofNat_lineAt hlen (Nat.sub_le _ _),
      countLines_eq_lineAt hne]
  refine ⟨hagree, rfl, rfl, ?_⟩
  intro prefs t reading path f hread
  obtain ⟨hcount, hsize⟩ := SourceFile.lineCount_of_read hread
  refine ⟨hcount, fun hne => ?_⟩
  rw [hcount]
  refine hagree f.bytes hne (Nat.lt_of_le_of_lt (Nat.succ_le_succ hsize) ?_)
  decide

/-- A file with both kinds of line ends, the second inside a string that is left open. -/
theorem lineCount_eq_countLines_open_string :
    (({} : Scanner).parse {} [0x61, 0x0D, 0x0A, 0x22, 0x0D]).value.last.metrics.lineCount.toNat =
      countLines [0x61, 0x0D, 0x0A, 0x22, 0x0D] ∧
    SourceFile.read {} { root := .directory [("A", .file (.bytes [0x61, 0x0D, 0x0A, 0x22, 0x0D]))] }
      {} "/A" = .ok ⟨"/A", none, [0x61, 0x0D, 0x0A, 0x22, 0x0D], 2, {}⟩ ∧
    (({} : Scanner).parse {} [0x61, 0x0D, 0x0A, 0x22, 0x0D]).value.last.metrics.lineCount.toNat =
      2 := by
  obtain ⟨hcount, -, -, hfile⟩ := lineCount_eq_countLines {} {}
  have hread : SourceFile.read {}
      { root := .directory [("A", .file (.bytes [0x61, 0x0D, 0x0A, 0x22, 0x0D]))] } {} "/A" =
        .ok ⟨"/A", none, [0x61, 0x0D, 0x0A, 0x22, 0x0D], 2, {}⟩ := by cbv
  exact ⟨hcount _ (by decide) (by decide), hread, (hfile _ _ _ _ _ hread).2 (by decide)⟩

end ScalaLex
