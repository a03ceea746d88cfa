import CrossPlan.Plan.Basic
import CrossPlan.Precedence

/-!
# Which plans can be run

The order of a plan takes at each step the smallest number whose producers are all taken.  A plan is
valid when it has operators, no cycle, a producer for every input and a consumer for every output.
-/

set_option autoImplicit false

namespace CrossPlan.Plan

/-- For each edge the operator that comes before and the one that comes after. -/
def precedence (plan : Plan) : List (Nat × Nat) :=
  plan.edges.map fun edge => (edge.source.operator, edge.target.operator)

def order (plan : Plan) : Except PlanError (List Nat) :=
  let nodes := List.range plan.size
  let order := Precedence.schedule nodes plan.precedence
  match Precedence.leftOut? nodes order with
  | none => .ok order
  | some stuck => .error (.cycle stuck)

/-- The first input of an operator without producer. -/
def checkInputs (plan : Plan) (operator : Operator) : Except PlanError Unit :=
  operator.inputs.zipIdx.forM fun (slot, place) =>
    if (plan.producerOf? ⟨operator.id, place⟩).isNone then
      .error (.unconnectedInput operator.id slot.name place)
    else .ok ()

/-- The first output of an operator without consumer. -/
def checkOutputs (plan : Plan) (operator : Operator) : Except PlanError Unit :=
  operator.outputs.zipIdx.forM fun (slot, place) =>
    if (plan.consumersOf ⟨operator.id, place⟩).isEmpty then
      .error (.danglingOutput operator.id slot.name place)
    else .ok ()

/-- The first fault of a plan: that it is empty or has a cycle, then the slots of the operators in
their order, the inputs of each before its outputs. -/
def validate (plan : Plan) : Except PlanError Unit := do
  if plan.operators.isEmpty then throw .empty
  let _ ← plan.order
  plan.operators.forM fun operator => do
    plan.checkInputs operator
    plan.checkOutputs operator

end CrossPlan.Plan
