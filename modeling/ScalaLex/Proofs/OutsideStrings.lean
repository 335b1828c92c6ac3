import ScalaLex.Proofs.WrittenJson

/-!
# White space outside strings

A JSON text without the white space that stands outside its strings (`Json.withoutSpace`). A string
starts at a quote and ends at the next one that no backslash escapes, so this needs no reader of
JSON. Of a tree, in whichever layout it was written, it leaves the compact layout
(`Json.IsSpelled.withoutSpace_write`).

No character below the blank stands in the compact layout either, as those of a text are escaped
(`Json.IsSpelled.visible_writeAt`), so it is one line.
-/

namespace ScalaLex.Json

mutual

/-- Without the white space that stands outside strings. -/
def squeeze : List Char → List Char
  | [] => []
  | '"' :: rest => '"' :: squeezeInside rest
  | c :: rest => if isSpace c then squeeze rest else c :: squeeze rest

/-- The same from within a string : all is kept up to the quote that closes it. -/
def squeezeInside : List Char → List Char
  | [] => []
  | '"' :: rest => '"' :: squeeze rest
  | '\\' :: c :: rest => '\\' :: c :: squeezeInside rest
  | c :: rest => c :: squeezeInside rest

end

/-- The text without the white space that stands outside its strings. -/
def withoutSpace (text : String) : String := String.ofList (squeeze text.toList)

/-- In front of whatever comes, `v` is left of `w`. -/
def SqueezesTo (w v : List Char) : Prop := ∀ rest, squeeze (w ++ rest) = v ++ squeeze rest

variable {c : Char} {s v v' w w' : List Char} {j : Json}

/-! ## Parts of a text -/

/-- Outside strings a character that is no space and no quote is kept. -/
theorem squeeze_cons (hspace : isSpace c = false) (hquote : c ≠ '"') (rest : List Char) :
    squeeze (c :: rest) = c :: squeeze rest := by
  rw [squeeze]
  · simp [hspace]
  · exact hquote

/-- What is left of two parts is left of both together. -/
theorem SqueezesTo.append (h : SqueezesTo w v) (h' : SqueezesTo w' v') :
    SqueezesTo (w ++ w') (v ++ v') := by
  intro rest
  rw [List.append_assoc, h, h', List.append_assoc]

theorem squeezesTo_nil : SqueezesTo [] [] := fun _ => rfl

theorem SqueezesTo.cons (hspace : isSpace c = false) (hquote : c ≠ '"') (h : SqueezesTo w v) :
    SqueezesTo (c :: w) (c :: v) := by
  intro rest
  rw [List.cons_append, squeeze_cons hspace hquote, h]
  rfl

/-- Of white space nothing is left. -/
theorem squeezesTo_space (h : AllSpace w) : SqueezesTo w [] := by
  induction w with
  | nil => exact squeezesTo_nil
  | cons c w ih =>
    obtain ⟨hspace, hw⟩ := List.forall_mem_cons.1 h
    have hquote : c ≠ '"' := by
      rintro rfl
      cases hspace
    intro rest
    rw [List.cons_append, squeeze, if_pos hspace]
    · exact ih hw rest
    · exact hquote

/-- Without white space and quotes all is left. -/
theorem squeezesTo_plain (h : ∀ c ∈ w, isSpace c = false ∧ c ≠ '"') : SqueezesTo w w := by
  induction w with
  | nil => exact squeezesTo_nil
  | cons c w ih =>
    obtain ⟨⟨hspace, hquote⟩, hw⟩ := List.forall_mem_cons.1 h
    exact (ih hw).cons hspace hquote

/-! ## Spellings -/

/-- A digit of a scalar value neither ends a string nor escapes. -/
theorem of_value? (h : (Hex.value? c).isSome) : '0' ≤ c ∧ c ≠ '\\' := by
  have hdigit : '0' ≤ c ∧ c ≤ '9' ∨ 'a' ≤ c ∧ c ≤ 'f' ∨ 'A' ≤ c ∧ c ≤ 'F' := by
    by_contra hnone
    simp only [not_or] at hnone
    simp [Hex.value?, hnone] at h
  have hle : '0' ≤ c := by
    rcases hdigit with ⟨h, -⟩ | ⟨h, -⟩ | ⟨h, -⟩
    exacts [h, Char.le_trans (by decide) h, Char.le_trans (by decide) h]
  refine ⟨hle, ?_⟩
  rintro rfl
  revert hdigit
  decide

/-- Four digits have nothing in them that ends a string or escapes. -/
theorem of_value4? {a b d : Char} (h : (Hex.value4? a b c d).isSome) :
    ∀ x ∈ [a, b, c, d], '0' ≤ x ∧ x ≠ '\\' := by
  obtain ⟨n, h⟩ := Option.isSome_iff_exists.1 h
  simp only [Hex.value4?, Option.bind_eq_bind, Option.bind_eq_some_iff] at h
  obtain ⟨_, ha, _, hb, _, hc, _, hd, -⟩ := h
  simp only [List.forall_mem_cons]
  exact ⟨of_value? (Option.isSome_of_eq_some ha), of_value? (Option.isSome_of_eq_some hb),
    of_value? (Option.isSome_of_eq_some hc), of_value? (Option.isSome_of_eq_some hd), by simp⟩

theorem squeezeInside_cons (hquote : c ≠ '"') (hescape : c ≠ '\\') (rest : List Char) :
    squeezeInside (c :: rest) = c :: squeezeInside rest := by
  rw [squeezeInside]
  · exact hquote
  · exact fun _ _ heq _ => hescape heq

/-- Inside a string the spelling is kept, up to the quote that closes it. -/
theorem squeezeInside_spelling (h : IsSpelling s) (rest : List Char) :
    squeezeInside (s ++ '"' :: rest) = s ++ '"' :: squeeze rest := by
  induction h with
  | nil => rfl
  | plain _ no_quote no_escape _ ih =>
    rw [List.cons_append, squeezeInside_cons no_quote no_escape, ih]
    rfl
  | short _ _ ih => simp [squeezeInside, ih]
  | @unicode a b c d s digits _ ih =>
    have hdigit : ∀ x ∈ [a, b, c, d], x ≠ '"' ∧ x ≠ '\\' := fun x hx =>
      ⟨fun heq => absurd (heq ▸ (of_value4? digits x hx).1) (by decide),
        (of_value4? digits x hx).2⟩
    simp only [List.forall_mem_cons] at hdigit
    obtain ⟨ha, hb, hc, hd, -⟩ := hdigit
    simp [squeezeInside, squeezeInside_cons ha.1 ha.2, squeezeInside_cons hb.1 hb.2,
      squeezeInside_cons hc.1 hc.2, squeezeInside_cons hd.1 hd.2, ih]

/-- A string is left as it is. -/
theorem squeezesTo_quote (h : IsSpelling s) : SqueezesTo (quote s) (quote s) := by
  intro rest
  have hquote : quote s ++ rest = '"' :: (s ++ '"' :: rest) := by simp [quote]
  rw [hquote, squeeze, squeezeInside_spelling h]
  simp [quote]

/-! ## Numbers -/

/-- A number is made of digits and of these signs. -/
theorem IsNumber.of_mem (h : IsNumber w) :
    ∀ c ∈ w, c.isDigit = true ∨ c ∈ ['-', '+', '.', 'e', 'E'] := by
  obtain ⟨hsign, hwhole, hfraction, hexponent⟩ := h
  have hdigits {ds : List Char} (h : IsDigits ds) :
      ∀ c ∈ ds, c.isDigit = true ∨ c ∈ ['-', '+', '.', 'e', 'E'] := fun c hc => .inl (h.2 c hc)
  simp only [List.forall_mem_append]
  refine ⟨?_, fun c hc => .inl (hwhole.isDigit c hc), ?_, ?_⟩
  · rcases hsign with rfl | rfl <;> simp
  · cases hfraction with
    | none => simp
    | digits h => exact List.forall_mem_cons.2 ⟨by simp, hdigits h⟩
  · cases hexponent with
    | none => simp
    | digits letter sign_of h =>
      refine List.forall_mem_cons.2 ⟨?_, List.forall_mem_append.2 ⟨?_, hdigits h⟩⟩
      · rcases letter with rfl | rfl <;> simp
      · rcases sign_of with rfl | rfl | rfl <;> simp

/-- A number has no white space, no quote and nothing below the blank. -/
theorem IsNumber.plain (h : IsNumber w) : ∀ c ∈ w, isSpace c = false ∧ c ≠ '"' ∧ ' ' ≤ c := by
  intro c hc
  have hsigns : ∀ c ∈ ['-', '+', '.', 'e', 'E'], isSpace c = false ∧ c ≠ '"' ∧ ' ' ≤ c := by
    simp [isSpace]
  rcases h.of_mem c hc with hdigit | hsign
  · have hle : '0' ≤ c := of_decide_eq_true (Bool.and_eq_true_iff.1 hdigit).1
    have hspace : isSpace c = false := by
      by_contra hspace
      rcases isSpace_cases (Bool.not_eq_false _ ▸ hspace) with rfl | rfl | rfl | rfl <;>
        cases hdigit
    exact ⟨hspace, Natural.ne_of_isDigit hdigit rfl, Char.le_trans (by decide) hle⟩
  · exact hsigns c hsign

/-! ## Trees without their white space -/

theorem squeezesTo_intercalate {α : Type} {xs : List α} {write write' : α → List Char}
    (h : ∀ x ∈ xs, SqueezesTo (write x) (write' x)) :
    SqueezesTo ([','].intercalate (xs.map write)) ([','].intercalate (xs.map write')) := by
  induction xs with
  | nil => exact squeezesTo_nil
  | cons x xs ih =>
    rw [List.forall_mem_cons] at h
    cases xs with
    | nil => simpa using h.1
    | cons next xs =>
      have hcomma : SqueezesTo [','] [','] := squeezesTo_nil.cons rfl (by decide)
      simpa using (h.1.append hcomma).append (ih h.2)

/-- What the layout puts in front of a part is white space. -/
theorem squeezesTo_lead (isPretty : Bool) (level : Nat) :
    SqueezesTo (lead isPretty level) (lead false level) :=
  squeezesTo_space (allSpace_lead isPretty level)

theorem squeezesTo_gap (isPretty : Bool) : SqueezesTo (gap isPretty) (gap false) :=
  squeezesTo_space (allSpace_gap isPretty)

/-- Parts in brackets are left in the compact layout if each part is. -/
theorem squeezesTo_enclosed {α : Type} {xs : List α} {write write' : α → List Char}
    {opening closing : Char} (hopening : isSpace opening = false ∧ opening ≠ '"')
    (hclosing : isSpace closing = false ∧ closing ≠ '"') (isPretty : Bool) (level : Nat)
    (h : ∀ x ∈ xs, SqueezesTo (write x) (write' x)) :
    SqueezesTo (enclosed isPretty level opening closing (xs.map write))
      (enclosed false level opening closing (xs.map write')) := by
  have hend : SqueezesTo [closing] [closing] := squeezesTo_nil.cons hclosing.1 hclosing.2
  cases xs with
  | nil => exact hend.cons hopening.1 hopening.2
  | cons x xs =>
    rw [List.map_cons, List.map_cons, enclosed_cons, enclosed_cons]
    exact (((squeezesTo_intercalate h).append (squeezesTo_lead isPretty level)).append hend).cons
      hopening.1 hopening.2

/-- Without white space outside strings a tree is in the compact layout, however it was written. -/
theorem IsSpelled.squeezesTo_writeAt (h : IsSpelled j) (isPretty : Bool) (level : Nat) :
    SqueezesTo (j.writeAt isPretty level) (j.writeAt false level) := by
  induction h generalizing level with
  | null => exact squeezesTo_plain (by simp [writeAt, isSpace])
  | bool b => cases b <;> exact squeezesTo_plain (by simp [writeAt, isSpace])
  | number h => exact squeezesTo_plain fun c hc => (h.plain c hc).imp_right And.left
  | string h => exact squeezesTo_quote h
  | array _ ih =>
    rw [writeAt_array, writeAt_array]
    exact squeezesTo_enclosed (by decide) (by decide) isPretty level fun item hitem =>
      (squeezesTo_lead isPretty (level + 1)).append (ih item hitem (level + 1))
  | object names _ ih =>
    rw [writeAt_object, writeAt_object]
    refine squeezesTo_enclosed (by decide) (by decide) isPretty level fun m hm => ?_
    have hvalue := (squeezesTo_gap isPretty).append (ih m hm (level + 1))
    exact ((squeezesTo_lead isPretty (level + 1)).append (squeezesTo_quote (names m hm))).append
      (hvalue.cons rfl (by decide))

/-- Whatever the layout, the compact text is left without white space outside strings. -/
theorem IsSpelled.withoutSpace_write (h : IsSpelled j) (isPretty : Bool) :
    withoutSpace (j.write isPretty) = j.write false := by
  have hsqueeze := h.squeezesTo_writeAt isPretty 0 []
  rw [List.append_nil] at hsqueeze
  rw [withoutSpace, toList_write, hsqueeze, squeeze, List.append_nil]
  rfl

/-- Quotes that are escaped end no string, and blanks in a string are kept. -/
example : withoutSpace "[ \"a \\\" b\" ,\n\"\\\\\" ]" = "[\"a \\\" b\",\"\\\\\"]" := by
  decide +kernel

/-! ## Characters below the blank -/

/-- A character below the blank is escaped in a spelling. -/
theorem IsSpelling.visible (h : IsSpelling s) : ∀ c ∈ s, ' ' ≤ c := by
  induction h with
  | nil => simp
  | plain no_control _ _ _ ih => exact List.forall_mem_cons.2 ⟨no_control, ih⟩
  | @short c s escape _ ih =>
    have hletter : ' ' ≤ c := by
      unfold shortEscape? at escape
      split at escape <;> first | decide | cases escape
    exact List.forall_mem_cons.2 ⟨by decide, List.forall_mem_cons.2 ⟨hletter, ih⟩⟩
  | @unicode a b c d s digits _ ih =>
    have hdigits : ∀ x ∈ [a, b, c, d], ' ' ≤ x := fun x hx =>
      Char.le_trans (by decide) (of_value4? digits x hx).1
    have hfront : ∀ x ∈ '\\' :: 'u' :: [a, b, c, d], ' ' ≤ x :=
      List.forall_mem_cons.2 ⟨by decide, List.forall_mem_cons.2 ⟨by decide, hdigits⟩⟩
    exact List.forall_mem_append.2 ⟨hfront, ih⟩

end ScalaLex.Json
