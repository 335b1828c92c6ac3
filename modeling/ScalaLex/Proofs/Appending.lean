import ScalaLex.Proofs.JoinedLists
import ScalaLex.Proofs.Lexemes

/-!
# One source behind another

A source can be cut behind a line feed, and before a space, without the scan noticing : no
byte on one side looks at a byte on the other (`run_append`). Where the machine then
stands outside every construct with nothing pending, it reads on like a scan that starts
there (`progress_run_eq_append`) : `Progress.append` puts what the second scan has to show
behind what there is already, on later lines.

So the scan of what comes behind a line feed or a space has the tokens that it would have
alone, further down.
-/

namespace ScalaLex

/-! ## Progress behind progress -/

/-- Sums construct by construct. -/
def Opened.add (o o' : Opened) : Opened where
  blockComments := o.blockComments + o'.blockComments
  lineComments := o.lineComments + o'.lineComments
  strings := o.strings + o'.strings
  chars := o.chars + o'.chars

/-- The lexeme `k` lines further down. -/
def Lexeme.shift (k : UInt32) (l : Lexeme) : Lexeme := { l with line := l.line + k }

/-- The open construct `k` lines further down. -/
def Unterminated.shift (k : UInt32) (u : Unterminated) : Unterminated :=
  { u with line := u.line + k }

/-- What there is to show where `o'` goes on behind `o`, counted from its own first line. -/
def Progress.append (o o' : Progress) : Progress where
  line := o'.line + (o.line - 1)
  finished := o'.finished.map (Lexeme.shift (o.line - 1)) ++ o.finished
  opened := o.opened.add o'.opened
  unterminated? := o'.unterminated?.map (Unterminated.shift (o.line - 1))

theorem Opened.add_record (o o' : Opened) (mode : Mode) :
    (o.add o').record mode = o.add (o'.record mode) := by
  cases mode <;> rfl

theorem Lexeme.token?_shift (k : UInt32) (l : Lexeme) :
    (l.shift k).token? = l.token?.map (Token.shift k) := by
  rw [token?, token?, Option.map_map]
  rfl

theorem Lexeme.filterMap_token?_shift (k : UInt32) (ls : List Lexeme) :
    (ls.map (shift k)).filterMap token? = (ls.filterMap token?).map (Token.shift k) := by
  rw [List.filterMap_map, List.map_filterMap]
  exact congrArg (List.filterMap · ls) (funext (token?_shift k))

namespace Progress

variable {o : Progress}

/-- The next piece is added to what goes on. -/
theorem append_add (o o' : Progress) (p : Piece) : (o.append o').add p = o.append (o'.add p) := by
  have hline : ∀ n : UInt32, o'.line + (o.line - 1) + n = o'.line + n + (o.line - 1) := by
    intro n
    ac_rfl
  ext1
  · exact hline _
  · rw [add, append, append, add]
    dsimp only
    rw [hline]
    split <;> rfl
  · exact o.opened.add_record o'.opened p.mode
  · rw [add, append, append, add]
    dsimp only
    split <;> rfl

theorem append_start (h : o.unterminated? = none) : o.append ({} : Machine).progress = o := by
  ext1
  · show 1 + (o.line - 1) = o.line
    rw [UInt32.add_comm, UInt32.sub_add_cancel]
  · rfl
  · rfl
  · exact h.symm

theorem foldl_add_append (o o' : Progress) (ps : List Piece) :
    ps.foldl add (o.append o') = o.append (ps.foldl add o') := by
  induction ps generalizing o' with
  | nil => rfl
  | cons p ps ih => rw [List.foldl_cons, List.foldl_cons, append_add, ih]

/-- Pieces add the same to whatever there is before them. -/
theorem foldl_add_eq_append (h : o.unterminated? = none) (ps : List Piece) :
    ps.foldl add o = o.append (ps.foldl add ({} : Machine).progress) := by
  rw [← foldl_add_append, append_start h]

end Progress

namespace Machine

variable {m : Machine} {v rest source : List UInt8} {raw b : UInt8}

/-! ## Runs over both sources -/

theorem advance_suffix (m : Machine) (raw : UInt8) (rest : List UInt8) :
    (m.advance raw rest).2 <:+ rest := by
  cases h : opensPair raw rest with
  | true => exact ⟨[], congrArg Prod.snd (advance_pair m h)⟩
  | false =>
    rw [advance_cons m h]
    cases (m.read (if raw == Byte.cr then Byte.lf else raw) rest.head?).two with
    | true => exact List.tail_suffix rest
    | false => exact List.suffix_refl rest

/-- A byte before the last one does not see what comes behind the source. -/
theorem advance_append (m : Machine) (raw : UInt8) (hrest : rest ≠ []) (v : List UInt8) :
    m.advance raw (rest ++ v) = ((m.advance raw rest).1, (m.advance raw rest).2 ++ v) := by
  obtain ⟨c, rest, rfl⟩ := List.exists_cons_of_ne_nil hrest
  have hpair : opensPair raw (c :: rest ++ v) = opensPair raw (c :: rest) := rfl
  cases h : opensPair raw (c :: rest) with
  | true => rw [advance_pair m h, advance_pair m (hpair.trans h)]
  | false =>
    rw [advance_cons m h, advance_cons m (hpair.trans h), List.cons_append, List.head?_cons,
      List.head?_cons]
    cases (m.read (if raw == Byte.cr then Byte.lf else raw) (some c)).two <;> rfl

/-- A line feed looks at nothing behind it, and a space is nothing to look at. -/
theorem advance_seam (m : Machine) (h : raw = Byte.lf ∨ v.head? = some 0x20) :
    m.advance raw v = ((m.advance raw []).1, v) := by
  have hpair : opensPair raw v = false := by
    rcases h with rfl | h
    · rfl
    · rw [opensPair, h, show (some (0x20 : UInt8) == some Byte.lf) = false from rfl,
        Bool.and_false]
  have hnil : opensPair raw [] = false := Bool.and_false _
  have hread : m.read (if raw == Byte.cr then Byte.lf else raw) v.head? =
      m.read (if raw == Byte.cr then Byte.lf else raw) none := by
    rcases h with rfl | h
    · exact (dispatch_lf _ _).trans (dispatch_lf _ _).symm
    · rw [h]
      exact read_congr_next m _ (by decide) (by decide)
  have htwo : (m.read (if raw == Byte.cr then Byte.lf else raw) none).two = false := by
    refine Bool.eq_false_iff.2 fun htwo => ?_
    rcases (dispatch_two htwo).2 with h | h <;> cases h
  rw [advance_cons m hpair, advance_cons m hnil, hread, htwo]
  rfl

/-- A run over a source that is cut behind a line feed, or before a space. -/
theorem run_append (m : Machine) {u : List UInt8}
    (h : (∀ b ∈ u.getLast?, b = Byte.lf) ∨ v.head? = some 0x20) :
    m.run (u ++ v) = (m.run u).run v := by
  match u with
  | [] => rfl
  | raw :: rest =>
    have hsuffix := advance_suffix m raw rest
    rw [List.cons_append, run_cons, run_cons m raw rest]
    by_cases hrest : rest = []
    · subst hrest
      rw [List.nil_append, advance_seam m (h.imp_left fun h => h raw rfl),
        List.suffix_nil.1 hsuffix]
      rfl
    · rw [advance_append m raw hrest]
      dsimp only
      refine run_append _ (h.imp_left fun h b hb => h b ?_)
      obtain ⟨front, hfront⟩ := hsuffix
      rw [← hfront, ← List.cons_append, List.getLast?_append, hb]
      rfl
termination_by u.length
decreasing_by exact Nat.lt_succ_of_le (length_advance_le m raw rest)

/-- The machine outside every construct, with what was pending finished. -/
def outside (m : Machine) : Machine := { m.flush with mode := .regular }

theorem outside_pending (m : Machine) : m.outside.pending = [] := flush_pending m

/-- A blank finishes what is pending, in a number as outside of it. -/
theorem exists_run_blank (hm : m.mode = .regular ∨ m.mode = .inNumber)
    (hblank : Byte.isBlank b = true) (hcr : b ≠ Byte.cr) :
    ∃ m' : Machine, m'.mode = .regular ∧ m'.pending = [] ∧
      ∀ rest, m.run (b :: rest) = m'.run rest := by
  have hpending : (m.outside.startOn b).pending = [] := m.outside_pending
  refine ⟨{ m.outside.startOn b with previous? := some b }, rfl, hpending, fun rest => ?_⟩
  have hread : m.read b rest.head? = ⟨m.outside.startOn b, b, false⟩ := by
    rcases hm with hm | hm
    · have hself : m.outside = m.flush := by rw [outside, ← hm, ← flush_mode m]
      rw [read_regular hm, regular_blank hblank, ← startOn_flush, hself]
    · have hstop : continuesNumber m.previous? b = false := by
        grind [continuesNumber, Byte.isNumeric, Byte.isSign, Byte.isExponent, Byte.isBlank,
          Byte.isDigit]
      rw [read_inNumber_of_not hm hstop, ← outside, read_regular rfl, regular_blank hblank,
        flush_of_pending_eq_nil hpending]
  rw [run_byte hcr, hread]
  rfl

/-- A machine between two pieces reads on like a scan that starts there. -/
theorem progress_run_eq_append (hm : m.mode = .regular) (hp : m.pending = [])
    (source : List UInt8) :
    (m.run source).flush.progress = m.progress.append (scan source).progress := by
  have hnone : m.progress.unterminated? = none := unterminated_eq_none (by rw [hm]; rfl)
  rw [← run_normalize, progress_run hm hp fun h => ne_cr_of_mem_normalize h rfl, progress_scan,
    Progress.foldl_add_eq_append hnone]

/-! ## The last line -/

/-- The line of the next byte is the one that the scan ends on, or the one after it if the
source ends with its line. -/
theorem progress_line_scan (h : source.getLast? = some b) : (scan source).progress.line =
    (scan source).line.number + UInt32.ofNat (isLineEnd b).toNat := by
  have hline := onLine_run source
  have hpos : 0 < source.length := List.length_pos_iff.2 fun hnil => by simp [hnil] at h
  have hcount : lineAt source source.length =
      lineAt source (source.length - 1) + (isLineEnd b).toNat := by
    rw [← endsLineAt_last h, lineAt, lineAt, Nat.add_assoc, ← lineEndsBefore_succ,
      Nat.sub_add_cancel hpos]
  have hnext : (scan source).progress.line = UInt32.ofNat (lineAt source source.length) :=
    (flush_nextNumber _).trans hline.nextNumber
  rw [hnext, hcount, UInt32.ofNat_add, scan, flush_line, hline.number]

end Machine

end ScalaLex
