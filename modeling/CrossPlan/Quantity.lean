import CrossPlan.Decimal.Binary

/-!
# The arithmetic of costs

Loads, costs and confidences are computed in any type with the operations below.  Programs run on
doubles; laws are stated on exact rationals, where rounding plays no part.
-/

set_option autoImplicit false

namespace CrossPlan

/-- Arithmetic with a comparison that may fail to decide, beside a total order that never does. -/
class Quantity (α : Type) extends Add α, Sub α, Mul α, Div α where
  ofNat : Nat → α
  /-- `digits / 10 ^ places` -/
  ofDecimal : (digits places : Nat) → α
  lt : α → α → Bool
  eq : α → α → Bool
  /-- The total order in which quantities are sorted. -/
  rank : α → α → Ordering
  finite : α → Bool
  /-- The least count that is not below the quantity, among the counts of 64 bits. -/
  count : α → Nat

namespace Quantity

variable {α : Type} [Quantity α]

def zero : α := ofNat 0

def one : α := ofNat 1

def le (a b : α) : Bool := lt a b || eq a b

/-- A quantity that equals itself; an undefined one does not. -/
def defined (a : α) : Bool := eq a a

/-- The larger of two quantities; an undefined one gives way. -/
def larger (a b : α) : α := if lt a b || !defined a then b else a

/-- The smaller of two quantities; an undefined one gives way. -/
def smaller (a b : α) : α := if lt b a || !defined a then b else a

def size (a : α) : α := if lt a zero then zero - a else a

def clamp (low high a : α) : α :=
  if lt a low then low else if lt high a then high else a

def sum (xs : List α) : α := xs.foldl (· + ·) zero

end Quantity

instance : Quantity Float where
  ofNat n := Float.ofNat n
  ofDecimal digits places := Float.ofScientific digits true places
  lt a b := a < b
  eq a b := a == b
  rank a b := compare (Decimal.orderKey a) (Decimal.orderKey b)
  finite a := a.isFinite
  count a := Decimal.ceilWithin (Count.span - 1) a

instance : Quantity Rat where
  ofNat n := n
  ofDecimal digits places := mkRat digits (Nat.pow 10 places)
  lt a b := a < b
  eq a b := a == b
  rank a b := if a < b then .lt else if a = b then .eq else .gt
  finite _ := true
  count a := min (Count.span - 1) a.ceil.toNat

end CrossPlan
