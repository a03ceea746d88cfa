import CrossPlan.Kind
import CrossPlan.Record

/-!
# Plans

A plan is a list of operators and the edges from their outputs to their inputs.  It is built call by
call, and a call that fails leaves it as it was.  Main inputs come first; inputs that broadcast a
whole table beside the rows come behind them.
-/

set_option autoImplicit false

namespace CrossPlan

/-- What an operator does, with the texts that say how. -/
inductive Action where
  | collectionSource (rows : List Record)
  | textSource (url : String)
  | filter (predicate : String)
  | map (renames : String)
  | project (columns : List String)
  | union
  | sink (destination : String)
  deriving BEq, Inhabited

def Action.kind : Action → Kind
  | .collectionSource _ => .collectionSource
  | .textSource _ => .textSource
  | .filter _ => .filter
  | .map _ => .map
  | .project _ => .project
  | .union => .union
  | .sink _ => .sink

structure Slot where
  name : String
  broadcast : Bool
  deriving DecidableEq, Repr, Inhabited

structure Operator where
  id : Nat
  name : String
  action : Action
  inputs : List Slot
  outputs : List Slot
  deriving BEq, Inhabited

namespace Operator

def create (id : Nat) (name : String) (action : Action) : Operator :=
  { id, name, action
    inputs := (List.range action.kind.inputs).map fun i => ⟨"in" ++ toString i, false⟩
    outputs := (List.range action.kind.outputs).map fun i => ⟨"out" ++ toString i, false⟩ }

def kind (operator : Operator) : Kind := operator.action.kind

/-- The places and names of the inputs that broadcast. -/
def broadcasts (operator : Operator) : List (Nat × String) :=
  (operator.inputs.zipIdx.filter fun entry => entry.1.broadcast).map fun entry =>
    (entry.2, entry.1.name)

def hasBroadcasts (operator : Operator) : Bool := operator.inputs.any (·.broadcast)

/-- The name and number under which an operator is shown. -/
def label (operator : Operator) : String :=
  operator.name ++ "(#" ++ toString operator.id ++ ")"

end Operator

/-- A slot of the operator with a number; outputs and inputs are told apart by their place. -/
structure SlotRef where
  operator : Nat
  slot : Nat
  deriving DecidableEq, Repr, Inhabited

structure Edge where
  source : SlotRef
  target : SlotRef
  deriving DecidableEq, Repr, Inhabited

structure Plan where
  operators : List Operator
  edges : List Edge
  deriving BEq, Inhabited

/-- The side of an operator on which a slot is missing. -/
inductive Side where
  | input
  | output
  deriving DecidableEq, Repr, Inhabited

def Side.name : Side → String
  | .input => "input"
  | .output => "output"

inductive PlanError where
  | unknownOperator (operator : Nat)
  | noSuchSlot (operator : Nat) (side : Side) (slot : Nat)
  | inputAlreadyConnected (operator slot : Nat)
  | unconnectedInput (operator : Nat) (name : String) (slot : Nat)
  | danglingOutput (operator : Nat) (name : String) (slot : Nat)
  | cycle (operator : Nat)
  | empty
  deriving DecidableEq, Repr

def operatorLabel (id : Nat) : String := "OperatorId(" ++ toString id ++ ")"

def PlanError.message : PlanError → String
  | .unknownOperator operator => "unknown operator " ++ operatorLabel operator
  | .noSuchSlot operator side slot =>
    operatorLabel operator ++ " has no " ++ side.name ++ " slot " ++ toString slot
  | .inputAlreadyConnected operator slot =>
    "input slot " ++ toString slot ++ " of " ++ operatorLabel operator
      ++ " is connected more than once"
  | .unconnectedInput operator name slot =>
    "required input slot " ++ toString slot ++ " of " ++ operatorLabel operator ++ " ('" ++ name
      ++ "') is not connected"
  | .danglingOutput operator name slot =>
    "output slot " ++ toString slot ++ " of " ++ operatorLabel operator ++ " ('" ++ name
      ++ "') has no consumer"
  | .cycle operator => "operator plan contains a cycle through " ++ operatorLabel operator
  | .empty => "operator plan is empty"

namespace Plan

def empty : Plan := ⟨[], []⟩

def size (plan : Plan) : Nat := plan.operators.length

def get (plan : Plan) (id : Nat) : Except PlanError Operator :=
  match plan.operators[id]? with
  | some operator => .ok operator
  | none => .error (.unknownOperator id)

def producerOf? (plan : Plan) (input : SlotRef) : Option SlotRef :=
  (plan.edges.find? fun edge => edge.target == input).map (·.source)

/-- The inputs fed by an output, in the order in which they were connected. -/
def consumersOf (plan : Plan) (output : SlotRef) : List SlotRef :=
  (plan.edges.filter fun edge => edge.source == output).map (·.target)

/-- Appends an operator; its number is the number of operators before it. -/
def addNamed (plan : Plan) (name : String) (action : Action) : Plan :=
  { plan with operators := plan.operators ++ [Operator.create plan.size name action] }

/-- Appends an operator that is named for its kind. -/
def add (plan : Plan) (action : Action) : Plan :=
  plan.addNamed action.kind.name action

/-- Appends a broadcast input to an operator and answers with its place. -/
def addBroadcast (plan : Plan) (id : Nat) (name : String) : Except PlanError (Plan × Nat) := do
  let operator ← plan.get id
  let changed := { operator with inputs := operator.inputs ++ [⟨name, true⟩] }
  pure ({ plan with operators := plan.operators.set id changed }, operator.inputs.length)

def connect (plan : Plan) (source target : SlotRef) : Except PlanError Plan := do
  let producer ← plan.get source.operator
  if producer.outputs.length ≤ source.slot then
    throw (.noSuchSlot source.operator .output source.slot)
  let consumer ← plan.get target.operator
  if consumer.inputs.length ≤ target.slot then
    throw (.noSuchSlot target.operator .input target.slot)
  if (plan.producerOf? target).isSome then
    throw (.inputAlreadyConnected target.operator target.slot)
  pure { plan with edges := plan.edges ++ [⟨source, target⟩] }

/-- Connects the first output of one operator with the first input of another. -/
def chain (plan : Plan) (source target : Nat) : Except PlanError Plan :=
  plan.connect ⟨source, 0⟩ ⟨target, 0⟩

/-- The edges into an operator, ordered by the inputs they feed. -/
def incoming (plan : Plan) (id : Nat) : List Edge :=
  (plan.edges.filter fun edge => edge.target.operator == id).mergeSort fun a b =>
    a.target.slot ≤ b.target.slot

/-- The edges out of an operator, ordered by output, then by consumer. -/
def outgoing (plan : Plan) (id : Nat) : List Edge :=
  let key (edge : Edge) := [edge.source.slot, edge.target.operator, edge.target.slot]
  (plan.edges.filter fun edge => edge.source.operator == id).mergeSort fun a b =>
    Count.inOrder (key a) (key b)

def sources (plan : Plan) : List Operator := plan.operators.filter (·.kind.isSource)

def sinks (plan : Plan) : List Operator := plan.operators.filter (·.kind.isSink)

end Plan

end CrossPlan
