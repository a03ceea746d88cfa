/-!
# Matching texts against wildcards

In a pattern `%` stands for any run of characters, `_` for exactly one, and every other character
for itself.  Text and pattern are gone through side by side.  Where they part, the last `%` that was
passed takes in one character more, and the text is gone through again from there; what an earlier
`%` has taken in stays as it is.
-/

set_option autoImplicit false

namespace CrossPlan.Like

/-- A `%` that was passed: the pattern behind it, and the text behind what it stands for so far. -/
structure Star where
  pattern : List Char
  text : List Char

/-- How much of the text can still be tried. -/
def reach (text : List Char) : Option Star → Nat
  | none => text.length + 1
  | some star => max star.text.length text.length

theorem reach_here (text pattern : List Char) (last : Option Star) :
    reach text (some ⟨pattern, text⟩) ≤ reach text last := by
  cases last <;> simp only [reach] <;> omega

theorem reach_rest (c : Char) (text : List Char) (last : Option Star) :
    reach text last ≤ reach (c :: text) last := by
  cases last <;> simp only [reach, List.length_cons] <;> omega

theorem reach_again (c : Char) (text : List Char) (star : Star) :
    reach star.text.tail (some ⟨star.pattern, star.text.tail⟩) < reach (c :: text) (some star) := by
  simp only [reach, List.length_tail, List.length_cons]
  omega

theorem length_tail_of_head? {pattern : List Char} {c : Char} (first : pattern.head? = some c) :
    pattern.tail.length < pattern.length := by
  cases pattern with
  | nil => cases first
  | cons => exact Nat.lt_succ_self _

/-- Goes through a text and a pattern, with the last `%` passed so far. -/
def scan (text pattern : List Char) (last : Option Star) : Bool :=
  match text with
  | [] => pattern.all (· == '%')
  | c :: rest =>
    if pattern.head? = some '%' then scan (c :: rest) pattern.tail (some ⟨pattern.tail, c :: rest⟩)
    else if pattern.head? = some '_' ∨ pattern.head? = some c then scan rest pattern.tail last
    else
      match last with
      | none => false
      | some star => scan star.text.tail star.pattern (some ⟨star.pattern, star.text.tail⟩)
-- going back to a wildcard lengthens the text again, but leaves less to be tried behind it
termination_by (reach text last, pattern.length)
decreasing_by
  · next star =>
    exact Prod.lex_def.mpr ((Nat.lt_or_eq_of_le (reach_here _ _ last)).imp_right
      fun same => ⟨same, length_tail_of_head? star⟩)
  · next fits =>
    exact Prod.lex_def.mpr ((Nat.lt_or_eq_of_le (reach_rest c rest last)).imp_right
      fun same => ⟨same, fits.elim length_tail_of_head? length_tail_of_head?⟩)
  · exact Prod.lex_def.mpr (Or.inl (reach_again c rest star))

end CrossPlan.Like

/-- Whether a text matches a pattern. -/
def CrossPlan.like (text pattern : String) : Bool :=
  Like.scan text.toList pattern.toList none
