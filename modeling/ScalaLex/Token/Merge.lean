import ScalaLex.Token.Basic

/-!
# Joining adjacent operators

Adjacent operators of a token list are joined into one, on the line of the first. A
bracket or a semicolon on its own takes nothing in, so what follows it starts anew; it is
taken in itself by an operator before it.
-/

namespace ScalaLex

/-- A single bracket or semicolon. -/
def isHardPunctuation (s : String) : Bool :=
  s == "(" || s == ")" || s == "[" || s == "]" || s == "\x7b" || s == "\x7d" || s == ";"

/-- A list joined so far : its tokens with the last one first, and how many tokens were
taken in by the one before. -/
structure Joined where
  reversed : List Token := []
  absorbed : Nat := 0
deriving Repr, DecidableEq, Inhabited

namespace Joined

/-- `next` is taken in by `last`. -/
def joins (last next : Token) : Bool :=
  last.isOperator && next.isOperator && !isHardPunctuation last.value

/-- One more token of the list. -/
def push (j : Joined) (t : Token) : Joined :=
  match j.reversed with
  | last :: done =>
    if joins last t then ⟨last.absorb t :: done, j.absorbed + 1⟩
    else ⟨t :: last :: done, j.absorbed⟩
  | [] => ⟨[t], j.absorbed⟩

/-- The tokens in order. -/
def tokens (j : Joined) : List Token := j.reversed.reverse

end Joined

/-- The list with its adjacent operators joined. -/
def joinOperators (ts : List Token) : Joined := ts.foldl Joined.push {}

/-- Tokens are kept or taken in, and none is lost. -/
theorem length_joinOperators (ts : List Token) :
    (joinOperators ts).tokens.length + (joinOperators ts).absorbed = ts.length := by
  suffices h : ∀ j : Joined, (ts.foldl Joined.push j).reversed.length +
      (ts.foldl Joined.push j).absorbed = j.reversed.length + j.absorbed + ts.length by
    simpa [joinOperators, Joined.tokens] using h {}
  induction ts with
  | nil => intro j; rfl
  | cons t ts ih =>
    intro j
    rw [List.foldl_cons, ih, Joined.push, List.length_cons]
    split
    · rename_i h
      split <;> simp [h] <;> omega
    · rename_i h
      simp [h]; omega

end ScalaLex
