/-!
# Counts

Counts of rows, bytes and links are natural numbers.  Those that are read from outside fit into 64
bits.
-/

set_option autoImplicit false

namespace CrossPlan.Count

/-- One more than the greatest number of 64 bits: 2 to the 64th. -/
def span : Nat := 0x10000000000000000

/-- One more than the greatest number of 64 bits with sign: 2 to the 63rd. -/
def half : Nat := 0x8000000000000000

def total (counts : List Nat) : Nat := counts.foldr (· + ·) 0

/-- Whether two lists are equal or stand in ascending order, where the first difference decides. -/
def inOrder : List Nat → List Nat → Bool
  | [], _ => true
  | _ :: _, [] => false
  | a :: as, b :: bs => a < b || (a == b && inOrder as bs)

end CrossPlan.Count
