import CrossPlan.Candidate
import CrossPlan.Channel.Route
import CrossPlan.Selection.Score

/-!
# The problem of selection

A selection of candidates is valid when each operator of the plan is covered by exactly one of them
and every output between two candidates can be handed over.  Its score adds the costs of the
candidates and of the conversions between them.

Operators are known here by their places in the order of the plan.
-/

set_option autoImplicit false

namespace CrossPlan

/-- Why no execution plan was selected. -/
inductive OptimizeError where
  | unsatisfiable (uncovered : List String)
  | noCompatibleChannel (producer consumer : String)
  | internal (reason : String)
  deriving DecidableEq, Repr

def OptimizeError.message : OptimizeError → String
  | .unsatisfiable uncovered =>
    "unsatisfiable plan: no candidate covers " ++ ", ".intercalate uncovered
  | .noCompatibleChannel producer consumer =>
    "unsatisfiable plan: no compatible channel from " ++ producer ++ " to " ++ consumer
  | .internal reason => "internal optimizer fault: " ++ reason

/-- An output of the plan and all inputs that read it. -/
structure OutputGroup where
  producer : SlotRef
  consumers : List SlotRef
  deriving DecidableEq, Repr

/-- The operators whose output cannot be handed over. -/
structure ChannelFailure where
  producer : String
  consumer : String
  deriving DecidableEq, Repr

def ChannelFailure.toError (failure : ChannelFailure) : OptimizeError :=
  .noCompatibleChannel failure.producer failure.consumer

/-- A slot of an operator in the replacement of a candidate. -/
structure CandidateSlot where
  candidate : Nat
  slot : SlotRef
  deriving DecidableEq, Repr

/-- How one output is handed over to other candidates. -/
structure GroupOutcome (α : Type) where
  routes : GroupRoutes α
  producer : CandidateSlot
  /-- the consumers in other candidates, and whether they are on another platform -/
  consumers : List (CandidateSlot × Bool)

structure Problem (α : Type) where
  plan : Plan
  candidates : List (Candidate α)
  config : OptimizerConfig α
  /-- the operators in the order of the plan -/
  order : List Nat
  /-- for each place the candidates that cover it, the cheapest first -/
  covering : List (List Nat)
  groups : List OutputGroup
  /-- for each place the groups that the operator feeds or reads -/
  touching : List (List Nat)
  /-- for each group what each conversion costs -/
  conversionCosts : List (List α)
  /-- for each place the least share of an operator in a candidate that covers it -/
  lowerShare : List (Option α)

/-- The candidate at each place, as far as one is chosen. -/
abbrev Assignment := List (Option Nat)

namespace Problem

variable {α : Type} [Quantity α]

open Quantity

/-! ## Setting up -/

/-- The share of each operator in the cost of a candidate. -/
def share (candidate : Candidate α) (cost : α) : α :=
  cost / ofNat (max 1 candidate.covered.length)

/-- The candidates that cover an operator, the cheapest first, of equally cheap ones the first. -/
def coveringOf (candidates : List (Candidate α)) (id : Nat) : List Nat :=
  let found := candidates.zipIdx.filter fun entry => entry.1.covered.contains id
  (found.mergeSort fun a b => rank a.1.cost b.1.cost != .gt).map (·.2)

def leastShare? (candidates : List (Candidate α)) (covering : List Nat) : Option α :=
  let shares := covering.filterMap fun place =>
    candidates[place]?.map fun candidate => share candidate candidate.cost
  bestBy lt (shares.filter defined)

/-- The outputs of the operators in the order of the plan. -/
def groupsOf (plan : Plan) (order : List Nat) : List OutputGroup :=
  order.flatMap fun id =>
    match plan.operators[id]? with
    | some operator => (List.range operator.outputs.length).map fun slot =>
        ⟨⟨id, slot⟩, plan.consumersOf ⟨id, slot⟩⟩
    | none => []

def touches (group : OutputGroup) (id : Nat) : Bool :=
  group.producer.operator == id || group.consumers.any fun input => input.operator == id

def touchingOf (groups : List OutputGroup) (id : Nat) : List Nat :=
  (List.range groups.length).filter fun place =>
    groups[place]?.any fun group => touches group id

/-- What each conversion of an output is expected to cost. -/
def conversionCostsOf (estimator : Estimator α) (weights : CostWeights α)
    (known : PlanStatistics) (group : OutputGroup) : List α :=
  Conversion.all.map fun conversion =>
    (estimator.estimate conversion.key [known.output group.producer.operator]).cost weights

/-- The cost of a conversion, given the costs of all. -/
def stepCost (costs : List α) (conversion : Conversion) : α :=
  costs.getD (Conversion.all.idxOf conversion) zero

def create (plan : Plan) (candidates : List (Candidate α)) (estimator : Estimator α)
    (known : PlanStatistics) (config : OptimizerConfig α) : Except OptimizeError (Problem α) := do
  let order ← plan.order.mapError fun error => .internal error.message
  let covering := order.map (coveringOf candidates)
  let groups := groupsOf plan order
  pure { plan, candidates, config, order, covering, groups
         touching := order.map (touchingOf groups)
         conversionCosts := groups.map (conversionCostsOf estimator config.weights known)
         lowerShare := covering.map (leastShare? candidates) }

/-! ## Looking things up -/

omit [Quantity α] in
def nameOf (problem : Problem α) (id : Nat) : String :=
  match problem.plan.operators[id]? with
  | some operator => operator.name
  | none => operatorLabel id

omit [Quantity α] in
def nameAt (problem : Problem α) (place : Nat) : String :=
  problem.nameOf (problem.order.getD place 0)

omit [Quantity α] in
/-- The names of the operators that no candidate covers. -/
def uncovered (problem : Problem α) : List String :=
  (problem.order.zip problem.covering).filterMap fun (id, covering) =>
    if covering.isEmpty then some (problem.nameOf id) else none

omit [Quantity α] in
/-- The candidate that is chosen for an operator. -/
def chosen? (problem : Problem α) (assigned : Assignment) (id : Nat) : Option Nat :=
  (problem.order.idxOf? id).bind fun place => assigned.getD place none

/-! ## Assigning -/

omit [Quantity α] in
def unassigned (problem : Problem α) : Assignment := List.replicate problem.order.length none

omit [Quantity α] in
/-- The places that a candidate covers. -/
def placesOf? (problem : Problem α) (candidate : Nat) : Option (List Nat) :=
  problem.candidates[candidate]?.bind fun found => found.covered.mapM (problem.order.idxOf? ·)

omit [Quantity α] in
/-- The assignment with a candidate at all places that it covers, if they are free. -/
def place? (problem : Problem α) (candidate : Nat) (assigned : Assignment) :
    Option (List Nat × Assignment) :=
  (problem.placesOf? candidate).bind fun places =>
    if places.any fun place => (assigned.getD place none).isSome then none
    else some (places,
      places.foldl (fun assigned place => assigned.set place (some candidate)) assigned)

omit [Quantity α] in
/-- The candidate at each place, if a selection covers each place once. -/
def assignment? (problem : Problem α) (selection : List Nat) : Option (List Nat) := do
  let assigned ← selection.foldlM (fun assigned candidate =>
    (problem.place? candidate assigned).map (·.2)) problem.unassigned
  assigned.mapM id

/-! ## Handing over -/

omit [Quantity α] in
/-- The slot that stands for an output of the plan in the replacement of its candidate. -/
def outputSlot? (problem : Problem α) (chosen : Nat) (output : SlotRef) :
    Option (CandidateSlot × BoundOperator α) := do
  let candidate ← problem.candidates[chosen]?
  let slot ← candidate.replacement.outputs[← candidate.matched.outputs.idxOf? output]?
  pure (⟨chosen, slot⟩, ← candidate.replacement.operators[slot.operator]?)

omit [Quantity α] in
/-- The slot that stands for an input of the plan in the replacement of its candidate. -/
def inputSlot? (problem : Problem α) (chosen : Nat) (input : SlotRef) :
    Option (CandidateSlot × BoundOperator α) := do
  let candidate ← problem.candidates[chosen]?
  let slot ← candidate.replacement.inputs[← candidate.matched.inputs.idxOf? input]?
  pure (⟨chosen, slot⟩, ← candidate.replacement.operators[slot.operator]?)

omit [Quantity α] in
def isBroadcast (problem : Problem α) (input : SlotRef) : Bool :=
  ((problem.plan.operators[input.operator]?).bind fun operator =>
    operator.inputs[input.slot]?).any (·.broadcast)

omit [Quantity α] in
/-- The consumers of a group that are in other candidates than the producer, with their candidates;
or the first operator that has none. -/
def outsideConsumers (problem : Problem α) (assigned : Assignment) (group : OutputGroup)
    (producer : Nat) : Except ChannelFailure (List (SlotRef × Nat)) := do
  let consumers ← group.consumers.mapM fun input =>
    match problem.chosen? assigned input.operator with
    | some candidate => .ok (input, candidate)
    | none => .error ⟨problem.nameOf group.producer.operator, problem.nameOf input.operator⟩
  pure (consumers.filter fun entry => entry.2 != producer)

/-- How a group is handed over; nothing where it stays within the candidate of its producer. -/
def handOver (problem : Problem α) (assigned : Assignment) (group : OutputGroup)
    (costs : List α) : Except ChannelFailure (Option (GroupOutcome α)) := do
  let name := problem.nameOf group.producer.operator
  let failure (input : SlotRef) : ChannelFailure := ⟨name, problem.nameOf input.operator⟩
  let found (input : SlotRef) {β : Type} : Option β → Except ChannelFailure β
    | some b => .ok b
    | none => .error (failure input)
  match problem.chosen? assigned group.producer.operator with
  | none => throw ⟨name, "<unassigned producer>"⟩
  | some chosen =>
    match ← problem.outsideConsumers assigned group chosen with
    | [] => pure none
    | first :: rest =>
      let (producer, source) ← found first.1 (problem.outputSlot? chosen group.producer)
      let consumers ← (first :: rest).mapM fun (input, candidate) => do
        let (consumer, target) ← found input (problem.inputSlot? candidate input)
        let accepted := acceptedOn (target.inputForms consumer.slot.slot)
          (problem.isBroadcast input)
        pure ((consumer, target.platform != source.platform), accepted)
      match resolveGroup (source.outputForms producer.slot.slot) (consumers.map (·.2))
          (stepCost costs) with
      | .ok routes => pure (some ⟨routes, producer, consumers.map (·.1)⟩)
      | .error missed => throw (failure ((first :: rest).getD missed first).1)

def outcome (problem : Problem α) (assigned : Assignment) (place : Nat) :
    Except ChannelFailure (Option (GroupOutcome α)) :=
  match problem.groups[place]?, problem.conversionCosts[place]? with
  | some group, some costs => problem.handOver assigned group costs
  | _, _ => .ok none

/-- What it costs to hand over the group at a place. -/
def outcomeCost (outcome : Option (GroupOutcome α)) : α :=
  match outcome with
  | some outcome => outcome.routes.cost
  | none => zero

/-- A cost with the costs of handing over some groups added to it. -/
def addGroups (problem : Problem α) (assigned : Assignment) (cost : α) (places : List Nat) :
    Except ChannelFailure α :=
  places.foldlM (fun cost place => do
    pure (cost + outcomeCost (← problem.outcome assigned place))) cost

/-! ## Scoring -/

omit [Quantity α] in
def crossLinks (outcome : Option (GroupOutcome α)) : Nat :=
  match outcome with
  | some outcome => outcome.consumers.countP (·.2)
  | none => 0

omit [Quantity α] in
def costsOf (problem : Problem α) (selection : List Nat) : List α :=
  selection.filterMap fun place => problem.candidates[place]?.map (·.cost)

/-- The score of a complete assignment, or the first group that cannot be handed over. -/
def scoreOf (problem : Problem α) (assigned : List Nat) : Except ChannelFailure (Score α) := do
  let used := (List.range problem.candidates.length).filter assigned.contains
  let outcomes ← (List.range problem.groups.length).mapM (problem.outcome (assigned.map some))
  let platforms := assigned.filterMap fun place => problem.candidates[place]?.map (·.platform)
  pure { cost := (outcomes.map outcomeCost).foldl (· + ·) (sum (problem.costsOf used))
         crossLinks := Count.total (outcomes.map crossLinks)
         ranks := platforms.map problem.config.rank
         candidates := assigned.filterMap fun place => problem.candidates[place]?.map (·.id) }

/-- The score of a selection, unless it is invalid. -/
def score? (problem : Problem α) (selection : List Nat) : Option (Score α) :=
  (problem.assignment? selection).bind fun assigned => (problem.scoreOf assigned).toOption

end Problem

end CrossPlan
