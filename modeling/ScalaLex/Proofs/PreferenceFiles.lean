import Mathlib
import ScalaLex.Batch.Run
import ScalaLex.Preferences.File
import ScalaLex.Proofs.WrittenDocuments

/-!
# Preference files that were written

Written preferences are read back under any environment (`parse_write`) : the document has a section
for every group and a key for every preference, so that no default is asked for, and only a thread
count out of its bounds comes back changed.

Preferences that were read, and those of an environment, have a thread count within the bounds
(`isBounded_of_parse`, `isBounded_ofEnvironment`). So they can be written, and what was written
gives them back (`parse_toText`).
-/

namespace ScalaLex.Preferences

open Toml (Value lookup?)

variable {env : Environment} {p : Preferences}

/-! ## Thread counts -/

/-- The thread count is within its bounds. -/
def IsBounded (b : BatchPreferences) : Prop := 1 ≤ b.maxThreads ∧ b.maxThreads ≤ maxWorkers

theorem isBounded_of_eq {b : BatchPreferences} {n : Nat} (h : b.maxThreads = clampThreads n) :
    IsBounded b := by
  rw [IsBounded, h]
  exact ⟨clampThreads_pos n, clampThreads_le n⟩

theorem isBounded_iff (b : BatchPreferences) : IsBounded b ↔ b.clamped = b := by
  constructor
  · rintro ⟨hpos, hle⟩
    rw [BatchPreferences.clamped, clampThreads, Nat.min_eq_left hle, Nat.max_eq_right hpos]
  · intro h
    exact isBounded_of_eq (congrArg BatchPreferences.maxThreads h).symm

theorem isBounded_batchOf (env : Environment) : IsBounded (batchOf env) := isBounded_of_eq rfl

theorem isBounded_readBatch {d b : BatchPreferences} {values : List (Option Value)}
    (h : readBatch d values = some b) : IsBounded b := by
  unfold readBatch at h
  split at h
  · simp only [Option.pure_def, Option.bind_eq_bind, Option.bind_eq_some_iff,
      Option.some.injEq] at h
    obtain ⟨_, -, _, -, _, -, _, -, rfl⟩ := h
    exact isBounded_of_eq rfl
  · cases h

/-- What holds of the default of a group and of what is built, holds of the group. -/
theorem of_section? {α : Type} {P : α → Prop} {keys : List String}
    {build : List (Option Value) → Option α} {default a : α} {v : Option Value}
    (hdefault : P default) (hbuild : ∀ values a, build values = some a → P a)
    (h : section? keys build default v = some a) : P a := by
  cases v with
  | none =>
    cases h
    exact hdefault
  | some v =>
    obtain ⟨values, -, hvalues⟩ := Option.bind_eq_some_iff.1 h
    exact hbuild values a hvalues

/-- Preferences that were read have a thread count within the bounds. -/
theorem isBounded_of_parse {text : String} (h : parse env text = .ok p) : IsBounded p.batch := by
  unfold parse at h
  split at h
  · cases h
  split at h
  · rename_i hentries
    cases h
    simp only [ofEntries?, Option.pure_def, Option.bind_eq_bind, Option.bind_eq_some_iff,
      Option.some.injEq] at hentries
    obtain ⟨_, -, _, -, batch, hbatch, _, -, rfl⟩ := hentries
    exact of_section? (isBounded_batchOf env) (fun _ _ => isBounded_readBatch) hbatch
  · cases h

theorem isBounded_ofEnvironment (env : Environment) : IsBounded (ofEnvironment env).batch :=
  isBounded_batchOf env

/-! ## Sections that were written -/

/-- The names of the sections, with their keys. -/
theorem keys_sections (p : Preferences) : (p.sections.map fun s => (s.name, s.keys)) =
    [("lexical", scanKeys), ("file_processor", fileKeys), ("batch", batchKeys),
      ("logging", logKeys)] := rfl

theorem bareNames_of_mem_sections {s : Toml.Section} (h : s ∈ p.sections) :
    Toml.BareNames s.name s.keys := by
  have hmem := List.mem_map_of_mem (f := fun s => (s.name, s.keys)) h
  rw [keys_sections] at hmem
  have hall : ∀ x ∈ [("lexical", scanKeys), ("file_processor", fileKeys), ("batch", batchKeys),
      ("logging", logKeys)], Toml.BareNames x.1 x.2 := by decide
  exact hall _ hmem

theorem nodup_sections (p : Preferences) : (p.sections.map (·.name)).Nodup := by
  change ["lexical", "file_processor", "batch", "logging"].Nodup
  decide

/-- Of what is written, only the thread count can be out of range. -/
theorem isWritable_sections (p : Preferences) :
    p.sections.all Toml.Section.isWritable = Toml.fits p.batch.maxThreads := by
  simp [sections, Toml.Section.isWritable, Toml.Field.isWritable]

theorem ofWord?_word (l : Level) : Level.ofWord? l.word = some l := by
  cases l <;> decide

theorem readTexts_map (ss : List String) : readTexts (.array (ss.map .string)) = some ss := by
  induction ss with
  | nil => rfl
  | cons s ss ih =>
    rw [readTexts] at ih
    rw [readTexts, List.map_cons, List.mapM_cons, ih]
    rfl

/-- Every preference of what was written is given, so no default is asked for. -/
theorem ofEntries?_toEntry (env : Environment) (p : Preferences) :
    ofEntries? env (p.sections.map (·.toEntry)) = some { p with batch := p.batch.clamped } := by
  have hscan : section? scanKeys (readScan (scanOf env)) (scanOf env)
      (lookup? (p.sections.map (·.toEntry)) "lexical") = some p.scan := rfl
  have hfiles : section? fileKeys (readFiles (filesOf env)) (filesOf env)
      (lookup? (p.sections.map (·.toEntry)) "file_processor") = some p.files := rfl
  have hbatch : section? batchKeys (readBatch (batchOf env)) (batchOf env)
      (lookup? (p.sections.map (·.toEntry)) "batch") = some p.batch.clamped := by
    change readBatch (batchOf env) [some (.integer p.batch.maxThreads),
      some (.boolean p.batch.recursive), some (.array (p.batch.extensions.map .string)),
      some (.boolean p.batch.failFast)] = _
    simp [readBatch, field, readCount, readBoolean, readTexts_map, BatchPreferences.clamped]
  have hlog : section? logKeys (readLog (logOf env)) (logOf env)
      (lookup? (p.sections.map (·.toEntry)) "logging") = some p.log := by
    change readLog (logOf env) [some (.boolean p.log.structured), some (.boolean p.log.console),
      some (.string p.log.minLevel.word), some (.boolean p.log.includeFile)] = _
    simp [readLog, field, readLevel, readBoolean, ofWord?_word]
  rw [ofEntries?, hscan, hfiles, hbatch, hlog]
  rfl

/-! ## Preferences that were written -/

/-- Written preferences are read back under any environment, with a thread count within the
bounds. -/
theorem parse_write (env : Environment) (h : Toml.fits p.batch.maxThreads = true) :
    parse env p.write = .ok { p with batch := p.batch.clamped } := by
  have hwritable : ∀ s ∈ p.sections, s.isWritable = true := by
    rw [← List.all_eq_true, isWritable_sections, h]
  have hread := Toml.parse?_writeSections p.sections
    (fun s hs => ⟨bareNames_of_mem_sections hs, hwritable s hs⟩) (nodup_sections p)
  rw [parse, write, hread]
  simp only [ofEntries?_toEntry]

/-- Preferences that are written come back as they are just if the thread count is within its
bounds. -/
theorem parse_toText_eq_iff (env : Environment) (p : Preferences) :
    (∃ text, p.toText = .ok text ∧ parse env text = .ok p) ↔ IsBounded p.batch := by
  constructor
  · rintro ⟨text, -, htext⟩
    exact isBounded_of_parse htext
  · intro h
    have hfits : Toml.fits p.batch.maxThreads = true := by
      have hle := h.2
      simp only [Toml.fits, maxWorkers] at hle ⊢
      simp
      omega
    have hread := parse_write env hfits
    rw [(isBounded_iff _).1 h] at hread
    exact ⟨p.write, if_pos (by rw [isWritable_sections, hfits]), hread⟩

/-- Preferences of an environment, and those that were read under it, have a thread count within
the bounds. They can be written, and under any other environment they are read back the same. -/
theorem parse_toText (env env' : Environment)
    (h : p = ofEnvironment env ∨ ∃ text, parse env text = .ok p) :
    1 ≤ p.batch.maxThreads ∧ p.batch.maxThreads ≤ 8 ∧
      ∃ text, p.toText = .ok text ∧ parse env' text = .ok p := by
  have hbounded : IsBounded p.batch := by
    obtain rfl | ⟨text, htext⟩ := h
    · exact isBounded_ofEnvironment env
    · exact isBounded_of_parse htext
  exact ⟨hbounded.1, hbounded.2, (parse_toText_eq_iff env' p).2 hbounded⟩

theorem parse_toText_quotes :
    parse [] "[batch]\nmax_threads = 64\nextensions = ['\"sc\"']\n" =
        .ok { batch := { maxThreads := 8, extensions := ["\"sc\""] } } ∧
      ∃ text, toText { batch := { maxThreads := 8, extensions := ["\"sc\""] } } = .ok text ∧
        parse [("SCALA_TOKENIZER_BATCH_EXTENSIONS", "sbt")] text =
          .ok { batch := { maxThreads := 8, extensions := ["\"sc\""] } } := by
  have hparse : parse [] "[batch]\nmax_threads = 64\nextensions = ['\"sc\"']\n" =
      .ok { batch := { maxThreads := 8, extensions := ["\"sc\""] } } := by cbv
  have hread := parse_toText [] [("SCALA_TOKENIZER_BATCH_EXTENSIONS", "sbt")] (Or.inr ⟨_, hparse⟩)
  exact ⟨hparse, hread.2.2⟩

end ScalaLex.Preferences
