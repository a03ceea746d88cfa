/-!
# Ordering by precedence

Given nodes in ascending order and pairs `(earlier, later)`, the schedule takes at each step the
first node that is not yet taken and whose predecessors are all taken.  It stops early when no such
node is left, which happens exactly when the rest contains a cycle or waits for an unknown node.
-/

set_option autoImplicit false

namespace CrossPlan.Precedence

def ready (pairs : List (Nat × Nat)) (taken : List Nat) (node : Nat) : Bool :=
  pairs.all fun pair => pair.2 != node || taken.contains pair.1

def next? (nodes : List Nat) (pairs : List (Nat × Nat)) (taken : List Nat) : Option Nat :=
  nodes.find? fun node => !taken.contains node && ready pairs taken node

/-- Takes up to `steps` further nodes. -/
def extend (nodes : List Nat) (pairs : List (Nat × Nat)) : (steps : Nat) → List Nat → List Nat
  | 0, taken => taken
  | steps + 1, taken =>
    match next? nodes pairs taken with
    | none => taken
    | some node => extend nodes pairs steps (taken ++ [node])

/-- The nodes in an order in which each comes after its predecessors, as far as there is one. -/
def schedule (nodes : List Nat) (pairs : List (Nat × Nat)) : List Nat :=
  extend nodes pairs nodes.length []

/-- The first node that the schedule leaves out. -/
def leftOut? (nodes order : List Nat) : Option Nat :=
  nodes.find? fun node => !order.contains node

end CrossPlan.Precedence
