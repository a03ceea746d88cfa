import CrossPlan.Quantity

/-!
# The order of selections

Of two selections the cheaper one is preferred; at the same cost the one with fewer links across
platforms, then the one on the preferred platforms, then the one with smaller candidates.
-/

set_option autoImplicit false

namespace CrossPlan

structure Score (α : Type) where
  cost : α
  /-- connections whose two ends are on different platforms -/
  crossLinks : Nat
  /-- the place of the platform of each operator in the order of preference -/
  ranks : List Nat
  /-- the candidate of each operator -/
  candidates : List Nat

variable {α : Type} [Quantity α]

open Quantity

/-- Whether costs differ by at most a billionth of the larger one, or of one. -/
def sameCost (a b : α) : Bool :=
  le (size (a - b)) (ofDecimal 1 9 * larger (larger (size a) (size b)) one)

namespace Score

def order (a b : Score α) : Ordering :=
  if sameCost a.cost b.cost then
    (compare a.crossLinks b.crossLinks)
      |>.then (compare a.ranks b.ranks)
      |>.then (compare a.candidates b.candidates)
  else rank a.cost b.cost

end Score

end CrossPlan
