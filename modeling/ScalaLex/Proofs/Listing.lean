import ScalaLex.Proofs.DecimalDigits
import ScalaLex.Proofs.Spelling

/-!
# The listing can be read back

A shown token is its line in decimal, its kind and its text, with nothing put in for what could be
mistaken for a separator. It can be read from the left all the same : the line ends at the colon,
the kind at the first space, and the rest is the text, whatever is in it (`Token.ofText?_text`).

The listing is cut at its line feeds. No text of a token has one (`lf_not_mem_value`), so no source
can put a line into the listing of its tokens, and the lines give the tokens back
(`listing_parse`).
-/

namespace ScalaLex

/-- The lines of a text, with what stands behind the last line feed. -/
def Text.lines (text : String) : List String := (text.toList.splitOn '\n').map String.ofList

/-- What stands in front of a separator where it first comes, and what stands behind it. -/
def Text.cut? (separator : Char) (chars : List Char) : Option (List Char × List Char) :=
  match chars.dropWhile (· != separator) with
  | [] => none
  | _ :: back => some (chars.takeWhile (· != separator), back)

/-- The token that a line of a listing shows. -/
def Token.ofText? (text : String) : Option Token := do
  let (digits, rest) ← Text.cut? ':' text.toList
  let (gap, rest) ← Text.cut? ' ' rest
  let (name, value) ← Text.cut? ' ' rest
  let line ← Natural.ofDigits? digits
  let kind ← Kind.ofName? (String.ofList name)
  if gap = [] ∧ line < UInt32.size then some ⟨kind, String.ofList value, line.toUInt32⟩ else none

variable {source : List UInt8} {t : Token} {ts : List Token} {chars front : List Char}
  {separator : Char}

/-! ## Lines -/

theorem Text.toList_join_cons (text : String) (texts : List String) :
    (String.join ((text :: texts).map (· ++ "\n"))).toList =
      text.toList ++ '\n' :: (String.join (texts.map (· ++ "\n"))).toList := by
  simp

/-- Texts that were written one per line are its lines, if none of them has a line feed. -/
theorem Text.lines_join {texts : List String} (h : ∀ text ∈ texts, '\n' ∉ text.toList) :
    lines (String.join (texts.map (· ++ "\n"))) = texts ++ [""] := by
  induction texts with
  | nil => rfl
  | cons text texts ih =>
    rw [List.forall_mem_cons] at h
    rw [lines, toList_join_cons, List.splitOn_append_cons_self_of_not_mem h.1, List.map_cons,
      String.ofList_toList]
    exact congrArg (text :: ·) (ih h.2)

/-! ## Lines of the listing -/

theorem Text.cut?_append (h : separator ∉ front) (back : List Char) :
    cut? separator (front ++ separator :: back) = some (front, back) := by
  have hfront : ∀ char ∈ front, (char != separator) = true := fun char hchar =>
    bne_iff_ne.2 fun heq => h (heq ▸ hchar)
  have hdrop : (front ++ separator :: back).dropWhile (· != separator) = separator :: back := by
    rw [List.dropWhile_append_of_pos hfront, List.dropWhile_cons_of_neg (by simp)]
  have htake : (front ++ separator :: back).takeWhile (· != separator) = front := by
    rw [List.takeWhile_append_of_pos hfront, List.takeWhile_cons_of_neg (by simp), List.append_nil]
  rw [cut?, hdrop, htake]

namespace Token

theorem toList_text (t : Token) : t.text.toList = Nat.toDigits 10 t.line.toNat ++
    ':' :: ' ' :: (t.kind.name.toList ++ ' ' :: t.value.toList) := by
  simp [text, Natural.toList_toString]

/-- A shown token is read back. -/
theorem ofText?_text (t : Token) : ofText? t.text = some t := by
  have hdigits : ':' ∉ Nat.toDigits 10 t.line.toNat := Natural.not_mem_toDigits rfl
  have hname : ' ' ∉ t.kind.name.toList := by cases t.kind <;> decide
  have hgap : Text.cut? ' ' (' ' :: (t.kind.name.toList ++ ' ' :: t.value.toList)) =
      some ([], t.kind.name.toList ++ ' ' :: t.value.toList) :=
    Text.cut?_append List.not_mem_nil _
  have hline : t.line.toNat < UInt32.size := t.line.toNat_lt_size
  simp [ofText?, toList_text, Text.cut?_append hdigits, hgap, Text.cut?_append hname,
    Natural.ofDigits?_toDigits, Kind.ofName?_name, hline]

/-- A line feed in a shown token is one in its text. -/
theorem lf_not_mem_text (h : '\n' ∉ t.value.toList) : '\n' ∉ t.text.toList := by
  have hdigits : '\n' ∉ Nat.toDigits 10 t.line.toNat := Natural.not_mem_toDigits rfl
  have hname : '\n' ∉ t.kind.name.toList := by cases t.kind <;> decide
  simp [toList_text, hdigits, hname, h]

end Token

theorem lf_not_mem_value (h : t.IsSpelled) : '\n' ∉ t.value.toList := by
  intro hmem
  have hblank := (h.visible _ (Utf8.mem_encode_of_ascii hmem (by decide))).1
  cases hblank

/-- The lines of a listing are the shown tokens, if no text has a line feed. -/
theorem lines_listing (h : ∀ t ∈ ts, '\n' ∉ t.text.toList) :
    Text.lines (Token.listing ts) = ts.map Token.text ++ [""] := by
  have hlisting : Token.listing ts = String.join ((ts.map Token.text).map (· ++ "\n")) := by
    rw [Token.listing, List.map_map]
    rfl
  rw [hlisting, Text.lines_join (by simpa using h)]

/-- The listing of a scan has one line for each token and nothing behind the last line feed, and
each line is read back as its token. -/
theorem listing_parse (s : Scanner) (elapsed : Span) (source : List UInt8) :
    let scanner := (s.parse elapsed source).value
    Text.lines scanner.listing = scanner.last.tokens.map Token.text ++ [""] ∧
    (Text.lines scanner.listing).dropLast.mapM Token.ofText? = some scanner.last.tokens := by
  intro scanner
  have hlines : Text.lines scanner.listing = scanner.last.tokens.map Token.text ++ [""] :=
    lines_listing fun t ht =>
      Token.lf_not_mem_text (lf_not_mem_value (isSpelled_of_mem_parse s elapsed source t ht))
  refine ⟨hlines, ?_⟩
  have hread : Token.ofText? ∘ Token.text = fun t => pure t := funext Token.ofText?_text
  rw [hlines, List.dropLast_concat, List.mapM_map, hread, List.mapM_pure, List.map_id']
  rfl

/-- Colons and digits in the text of a token take nothing from its line and its kind. -/
example : Token.ofText? "12: OPERATOR ::3:" = some ⟨.operator, "::3:", 12⟩ := by decide

end ScalaLex
