import CrossPlan.Quantity

/-!
# Loads and their cost

A load says how much time, memory and network an operator is expected to take, each as an interval,
and how far the estimate is to be trusted.  Its cost is a weighted sum, raised where trust is low.
-/

set_option autoImplicit false

namespace CrossPlan

/-- What one unit of each resource costs, and how much a lack of confidence adds. -/
structure CostWeights (α : Type) where
  timeMs : α
  memoryBytes : α
  networkBytes : α
  uncertaintyPenalty : α

structure Interval (α : Type) where
  lower : α
  upper : α
  deriving Inhabited

structure LoadProfile (α : Type) where
  time : Interval α
  memory : Interval α
  network : Interval α
  confidence : α
  deriving Inhabited

variable {α : Type} [Quantity α]

open Quantity

def CostWeights.standard : CostWeights α :=
  ⟨one, zero, zero, ofDecimal 1 1⟩

namespace Interval

def point (value : α) : Interval α :=
  let value := larger value zero
  ⟨value, value⟩

/-- The interval of a half width about an expected value, cut off at zero. -/
def around (expected halfWidth : α) : Interval α :=
  let expected := larger expected zero
  let halfWidth := size halfWidth
  ⟨larger (expected - halfWidth) zero, expected + halfWidth⟩

def expected (interval : Interval α) : α :=
  (interval.lower + interval.upper) / ofNat 2

def width (interval : Interval α) : α :=
  interval.upper - interval.lower

def add (a b : Interval α) : Interval α :=
  ⟨a.lower + b.lower, a.upper + b.upper⟩

instance : Add (Interval α) := ⟨add⟩

end Interval

namespace LoadProfile

/-- No load, with full confidence. -/
def zero : LoadProfile α :=
  ⟨Interval.point Quantity.zero, Interval.point Quantity.zero, Interval.point Quantity.zero, one⟩

/-- Loads add up; the confidence of a sum is that of its least trusted part. -/
def add (a b : LoadProfile α) : LoadProfile α :=
  ⟨a.time + b.time, a.memory + b.memory, a.network + b.network, smaller a.confidence b.confidence⟩

instance : Add (LoadProfile α) := ⟨add⟩

def cost (profile : LoadProfile α) (weights : CostWeights α) : α :=
  let expected := profile.time.expected * weights.timeMs
    + profile.memory.expected * weights.memoryBytes
    + profile.network.expected * weights.networkBytes
  expected *
    (one + weights.uncertaintyPenalty * (one - clamp Quantity.zero one profile.confidence))

end LoadProfile

end CrossPlan
