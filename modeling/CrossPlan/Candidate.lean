import CrossPlan.Estimation.Estimator
import CrossPlan.Rule.Basic

/-!
# Candidates

A candidate is the replacement of one match by one rule, with its expected load and cost.  All
candidates of a plan are listed in an order that does not depend on the order of the rules.
-/

set_option autoImplicit false

namespace CrossPlan

/-- What the two phases of an operator are expected to take. -/
structure OperatorEstimate (α : Type) where
  prepare : LoadProfile α
  main : LoadProfile α

structure Candidate (α : Type) where
  /-- the place among all candidates -/
  id : Nat
  /-- the place of the rule among all rules -/
  rule : Nat
  ruleName : String
  platform : Platform
  matched : SubplanMatch
  replacement : Replacement α
  /-- one for each operator of the replacement -/
  estimates : List (OperatorEstimate α)
  profile : LoadProfile α
  cost : α

namespace Candidate

variable {α : Type}

/-- The operators of the plan that a candidate stands for, in ascending order. -/
def covered (candidate : Candidate α) : List Nat := candidate.matched.covered

/-- The place of a slot in a list of slots, as keys of an order. -/
def slotKeys (slots : List SlotRef) : List (List Nat) :=
  slots.map fun slot => [slot.operator, slot.slot]

/-- The order of candidates: by operators, platform, rule and match. -/
def order (a b : Candidate α) : Ordering :=
  (compare a.covered b.covered)
    |>.then (compare a.platform.index b.platform.index)
    |>.then (compare a.ruleName b.ruleName)
    |>.then (compare a.matched.nodes b.matched.nodes)
    |>.then (compare (slotKeys a.matched.inputs) (slotKeys b.matched.inputs))
    |>.then (compare (slotKeys a.matched.outputs) (slotKeys b.matched.outputs))

def arrange (candidates : List (Candidate α)) : List (Candidate α) :=
  let sorted := candidates.mergeSort fun a b => order a b != .gt
  sorted.zipIdx.map fun (candidate, place) => { candidate with id := place }

end Candidate

namespace Replacement

variable {α : Type} [Quantity α]

omit [Quantity α] in
/-- What is known of the rows on an input of an operator: what its link brings, or else what feeds
its boundary. -/
def inputStatistics (replacement : Replacement α) (plan : Plan) (known : PlanStatistics)
    (found : SubplanMatch) (produced : List Statistics) (input : SlotRef) : Statistics :=
  match (replacement.links.filter fun link => link.target == input).getLast? with
  | some link => produced[link.source.operator]?.getD .unknown
  | none =>
    match ((replacement.inputs.zip found.inputs).filter fun pair => pair.1 == input).getLast? with
    | some (_, boundary) =>
      ((plan.producerOf? boundary).map fun output => known.output output.operator).getD .unknown
    | none => .unknown

omit [Quantity α] in
/-- The inputs that an operator is sized by; a source is sized by what it puts out. -/
def sizes (replacement : Replacement α) (plan : Plan) (known : PlanStatistics)
    (found : SubplanMatch) (produced : List Statistics) (place inputs : Nat) : List Statistics :=
  if inputs = 0 then [known.output (found.nodes.headD 0)]
  else (List.range inputs).map fun slot =>
    replacement.inputStatistics plan known found produced ⟨place, slot⟩

omit [Quantity α] in
/-- What is known of the rows that leave an operator: what the plan says of its boundary, or else
what comes in. -/
def outputStatistics (replacement : Replacement α) (known : PlanStatistics) (found : SubplanMatch)
    (place : Nat) (sizes : List Statistics) : Statistics :=
  let boundary := (replacement.outputs.zip found.outputs).find? fun pair =>
    pair.1.operator == place
  match boundary with
  | some (_, output) => known.output output.operator
  | none => sizes.headD .unknown

/-- The estimates of operators from a place on, given what the earlier ones put out. -/
def estimateFrom (replacement : Replacement α) (estimator : Estimator α) (plan : Plan)
    (known : PlanStatistics) (found : SubplanMatch) :
    List (BoundOperator α) → List Statistics → List (OperatorEstimate α)
  | [], _ => []
  | operator :: rest, produced =>
    let place := produced.length
    let sizes := replacement.sizes plan known found produced place operator.inputs
    let output := replacement.outputStatistics known found place sizes
    ⟨estimator.estimate operator.prepareKey [], estimator.estimate operator.mainKey sizes⟩
      :: replacement.estimateFrom estimator plan known found rest (produced ++ [output])

def estimates (replacement : Replacement α) (estimator : Estimator α) (plan : Plan)
    (known : PlanStatistics) (found : SubplanMatch) : List (OperatorEstimate α) :=
  replacement.estimateFrom estimator plan known found replacement.operators []

end Replacement

def totalLoad {α : Type} [Quantity α] (estimates : List (OperatorEstimate α)) : LoadProfile α :=
  estimates.foldl (fun sum estimate => sum + estimate.prepare + estimate.main) LoadProfile.zero

namespace RuleRegistry

variable {α : Type} [Quantity α]

def candidate (estimator : Estimator α) (weights : CostWeights α) (plan : Plan)
    (known : PlanStatistics) (epoch place : Nat) (rule : Rule α) (found : SubplanMatch) :
    Except MappingError (Candidate α) := do
  let operators ← (found.nodes.mapM plan.get).mapError .plan
  let replacement ← rule.replace operators found.inputs.length found.outputs.length epoch
  let estimates := replacement.estimates estimator plan known found
  let profile := totalLoad estimates
  pure { id := 0, rule := place, ruleName := rule.name, platform := rule.platform
         matched := found, replacement, estimates, profile, cost := profile.cost weights }

/-- The candidates of all matches of all rules; or the first fault of a replacement. -/
def candidates (registry : RuleRegistry α) (estimator : Estimator α) (weights : CostWeights α)
    (plan : Plan) (known : PlanStatistics) (epoch : Nat) :
    Except MappingError (List (Candidate α)) := do
  let found ← registry.rules.zipIdx.mapM fun (rule, place) =>
    (rule.pattern.findMatches plan).mapM
      (candidate estimator weights plan known epoch place rule)
  pure (Candidate.arrange found.flatten)

end RuleRegistry

end CrossPlan
