import CrossPlan.Json.Shape

/-!
# Cost models

A cost model says how the time, the memory and the network traffic of one phase of an operator grow
with its rows and bytes.  A linear model has coefficients; a piecewise one joins measured points by
straight lines and goes on beyond the last of them.
-/

set_option autoImplicit false

namespace CrossPlan

structure Breakpoint (α : Type) where
  rows : Nat
  ms : α
  deriving Inhabited

inductive CostModel (α : Type) where
  | linear (fixedMs perRowMs perKbMs memoryPerRow networkRatio : α)
  | piecewise (points : List (Breakpoint α)) (memoryPerRow networkRatio : α)
  deriving Inhabited

inductive ModelFault where
  | coefficients
  | noPoints
  | unordered
  | values
  deriving DecidableEq, Repr

def ModelFault.message : ModelFault → String
  | .coefficients => "coefficients must be finite and >= 0"
  | .noPoints => "piecewise model needs at least one point"
  | .unordered => "breakpoints must be strictly increasing in rows"
  | .values => "values must be finite and >= 0"

variable {α : Type} [Quantity α]

open Quantity

/-- Whether a value is finite and not below zero. -/
def notNegative (value : α) : Bool := finite value && le zero value

/-- Whether each point has more rows than the one before it. -/
def ascending : List (Breakpoint α) → Bool
  | a :: b :: rest => decide (a.rows < b.rows) && ascending (b :: rest)
  | _ => true

/-- The first segment that does not end before the given rows, else the last one. -/
def segment? (rows : α) : List (Breakpoint α) → Option (Breakpoint α × Breakpoint α)
  | [a, b] => some (a, b)
  | a :: b :: rest => if le rows (ofNat b.rows) then some (a, b) else segment? rows (b :: rest)
  | _ => none

/-- The height over the given rows of the line through two points. -/
def lineThrough (a b : Breakpoint α) (rows : α) : α :=
  let slope := (b.ms - a.ms) / ofNat (b.rows - a.rows)
  a.ms + slope * (rows - ofNat a.rows)

/-- The time at the given rows: the first point's before it, and never less than the last one's
behind it. -/
def interpolate (points : List (Breakpoint α)) (rows : α) : α :=
  match points.head?, points.getLast? with
  | some first, some last =>
    if le rows (ofNat first.rows) then first.ms
    else match segment? rows points with
      | none => first.ms
      | some (a, b) =>
        let time := lineThrough a b rows
        let time := if lt (ofNat last.rows) rows then larger time last.ms else time
        larger time zero
  | _, _ => zero

namespace CostModel

def ofTimes (fixedMs perRowMs : α) : CostModel α := .linear fixedMs perRowMs zero zero zero

def validate : CostModel α → Except ModelFault Unit
  | .linear fixed perRow perKb memory network =>
    if [fixed, perRow, perKb, memory, network].all notNegative then .ok ()
    else .error .coefficients
  | .piecewise points memory network =>
    if points.isEmpty then .error .noPoints
    else if !ascending points then .error .unordered
    else if points.all (fun point => notNegative point.ms) && notNegative memory
        && notNegative network then .ok ()
    else .error .values

def timeMs (rows bytes : α) : CostModel α → α
  | .linear fixed perRow perKb _ _ => fixed + perRow * rows + perKb * bytes / ofNat 1024
  | .piecewise points _ _ => interpolate points rows

def memoryBytes (rows : α) : CostModel α → α
  | .linear _ _ _ memory _ | .piecewise _ memory _ => memory * rows

/-- The part of the bytes that crosses the network. -/
def networkBytes (bytes : α) : CostModel α → α
  | .linear _ _ _ _ network | .piecewise _ _ network => network * bytes

end CostModel

def Breakpoint.ofJson? (value : Json) : Option (Breakpoint Float) := do
  match ← value.shape? ["rows", "ms"] with
  | [rows, ms] => pure ⟨← rows.required Json.word?, ← ms.required Json.double?⟩
  | _ => none

namespace CostModel

def linearOfJson? (value : Json) : Option (CostModel Float) := do
  match ← value.shape? ["fixed_ms", "per_row_ms", "per_kb_ms", "memory_bytes_per_row",
    "network_ratio"] with
  | [fixed, perRow, perKb, memory, network] =>
    pure (.linear (← fixed.orElse 0 Json.double?) (← perRow.orElse 0 Json.double?)
      (← perKb.orElse 0 Json.double?) (← memory.orElse 0 Json.double?)
      (← network.orElse 0 Json.double?))
  | _ => none

def piecewiseOfJson? (value : Json) : Option (CostModel Float) := do
  match ← value.shape? ["points", "memory_bytes_per_row", "network_ratio"] with
  | [points, memory, network] =>
    pure (.piecewise (← points.required (Json.listOf? Breakpoint.ofJson?))
      (← memory.orElse 0 Json.double?) (← network.orElse 0 Json.double?))
  | _ => none

/-- A model is told apart by its field `model`, or by the first item of a list. -/
def ofJson? (value : Json) : Option (CostModel Float) :=
  match value.tagged? "model" with
  | some ("linear", rest) => linearOfJson? rest
  | some ("piecewise", rest) => piecewiseOfJson? rest
  | _ => none

end CostModel

end CrossPlan
