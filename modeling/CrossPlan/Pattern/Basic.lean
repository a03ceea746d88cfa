import CrossPlan.Plan.Validity
import CrossPlan.Platform

/-!
# Patterns of subplans

A pattern is a small connected graph of nodes, each of which asks for an operator of a kind.  Every
slot of every node is either internal, where an edge of the pattern ends, or a boundary, where the
pattern is joined to the rest of a plan.  Broadcast inputs are no part of a pattern.

A draft is accepted exactly when all this holds; it is then given a traversal, which reaches every
node from the first one along the edges.
-/

set_option autoImplicit false

namespace CrossPlan

/-- What a node of a pattern asks of an operator. -/
structure OperatorPattern where
  name : String
  kind : Kind
  allowsBroadcasts : Bool
  accepts : Operator → Bool

namespace OperatorPattern

def fits (node : OperatorPattern) (operator : Operator) : Bool :=
  operator.kind == node.kind && (node.allowsBroadcasts || !operator.hasBroadcasts)
    && node.accepts operator

/-- Asks for a kind and for nothing else. -/
def ofKind (kind : Kind) : OperatorPattern := ⟨kind.name, kind, false, fun _ => true⟩

end OperatorPattern

/-- What is wrong with the way a slot is bound. -/
inductive BindingFault where
  | unbound
  | duplicatedBoundary
  | boundTwice
  | internalAndBoundary
  deriving DecidableEq, Repr

def BindingFault.message : BindingFault → String
  | .unbound => "unbound"
  | .duplicatedBoundary => "a duplicated boundary"
  | .boundTwice => "bound more than once"
  | .internalAndBoundary => "both internal and boundary"

inductive PatternError where
  | empty (pattern : String)
  | unknownNode (pattern : String) (node : Nat)
  | noSuchSlot (pattern : String) (node : Nat) (side : Side) (slot : Nat)
  | binding (pattern : String) (node : Nat) (side : Side) (slot : Nat) (fault : BindingFault)
  | disconnected (pattern : String)
  | cyclic (pattern : String)
  | unsupportedKind (rule : String) (platform : Platform) (kind : Kind)
  | duplicateRule (rule : String)
  deriving DecidableEq, Repr

def PatternError.message : PatternError → String
  | .empty pattern => "pattern '" ++ pattern ++ "' has no nodes"
  | .unknownNode pattern node =>
    "pattern '" ++ pattern ++ "' refers to unknown node " ++ toString node
  | .noSuchSlot pattern node side slot =>
    "pattern '" ++ pattern ++ "': node " ++ toString node ++ " has no " ++ side.name ++ " slot "
      ++ toString slot
  | .binding pattern node side slot fault =>
    "pattern '" ++ pattern ++ "': " ++ side.name ++ " slot " ++ toString slot ++ " of node "
      ++ toString node ++ " is " ++ fault.message
  | .disconnected pattern => "pattern '" ++ pattern ++ "' is not connected"
  | .cyclic pattern => "pattern '" ++ pattern ++ "' is cyclic"
  | .unsupportedKind rule platform kind =>
    "rule '" ++ rule ++ "': platform " ++ platform.name ++ " cannot execute " ++ kind.name
  | .duplicateRule rule => "rule '" ++ rule ++ "' is registered twice"

/-- A pattern as it is written down.  Edges and boundaries name nodes by their places. -/
structure PatternDraft where
  name : String
  nodes : List OperatorPattern
  edges : List Edge
  inputs : List SlotRef
  outputs : List SlotRef

/-- A node that a traversal reaches, and the place of the edge along which it is reached. -/
structure Visit where
  node : Nat
  via : Option Nat
  deriving DecidableEq, Repr

/-- A draft with a traversal of its nodes. -/
structure Pattern extends PatternDraft where
  traversal : List Visit

namespace PatternDraft

def arity (kind : Kind) : Side → Nat
  | .input => kind.inputs
  | .output => kind.outputs

/-- Whether a node and a slot of it are there. -/
def checkSlot (draft : PatternDraft) (side : Side) (slot : SlotRef) : Except PatternError Unit :=
  match draft.nodes[slot.operator]? with
  | none => .error (.unknownNode draft.name slot.operator)
  | some node =>
    if slot.slot < arity node.kind side then .ok ()
    else .error (.noSuchSlot draft.name slot.operator side slot.slot)

def checkSlots (draft : PatternDraft) : Except PatternError Unit := do
  draft.edges.forM fun edge => do
    draft.checkSlot .output edge.source
    draft.checkSlot .input edge.target
  draft.inputs.forM (draft.checkSlot .input)
  draft.outputs.forM (draft.checkSlot .output)

/-- An input is the end of one edge, or one boundary. -/
def inputFault? (draft : PatternDraft) (slot : SlotRef) : Option BindingFault :=
  match (draft.edges.map (·.target)).count slot, draft.inputs.count slot with
  | 0, 0 => some .unbound
  | 1, 0 | 0, 1 => none
  | 0, _ => some .duplicatedBoundary
  | _, _ => some .boundTwice

/-- An output is the start of edges, or one boundary. -/
def outputFault? (draft : PatternDraft) (slot : SlotRef) : Option BindingFault :=
  match (draft.edges.map (·.source)).contains slot, draft.outputs.count slot with
  | false, 0 => some .unbound
  | true, 0 | false, 1 => none
  | false, _ => some .duplicatedBoundary
  | true, _ => some .internalAndBoundary

def checkSide (draft : PatternDraft) (node : Nat) (side : Side) (count : Nat)
    (fault? : SlotRef → Option BindingFault) : Except PatternError Unit :=
  (List.range count).forM fun slot =>
    match fault? ⟨node, slot⟩ with
    | none => .ok ()
    | some fault => .error (.binding draft.name node side slot fault)

def checkBindings (draft : PatternDraft) : Except PatternError Unit :=
  draft.nodes.zipIdx.forM fun (node, place) => do
    draft.checkSide place .input node.kind.inputs draft.inputFault?
    draft.checkSide place .output node.kind.outputs draft.outputFault?

/-- For each edge the node that comes before and the one that comes after. -/
def precedence (draft : PatternDraft) : List (Nat × Nat) :=
  draft.edges.map fun edge => (edge.source.operator, edge.target.operator)

def isAcyclic (draft : PatternDraft) : Bool :=
  (Precedence.schedule (List.range draft.nodes.length) draft.precedence).length
    == draft.nodes.length

/-- The node at the other end of an edge. -/
def across? (edge : Edge) (node : Nat) : Option Nat :=
  if edge.source.operator = node then some edge.target.operator
  else if edge.target.operator = node then some edge.source.operator
  else none

/-- Adds the nodes that edges join to a node, as far as they are new. -/
def reach (edges : List Edge) (node : Nat) (visits : List Visit) : List Visit :=
  edges.zipIdx.foldl (fun visits (edge, place) =>
    match across? edge node with
    | some next =>
      if visits.any (·.node == next) then visits else visits ++ [⟨next, some place⟩]
    | none => visits) visits

/-- Goes on from the visit at a place, for up to `steps` visits. -/
def traverse (edges : List Edge) : (steps place : Nat) → List Visit → List Visit
  | 0, _, visits => visits
  | steps + 1, place, visits =>
    match visits[place]? with
    | none => visits
    | some visit => traverse edges steps (place + 1) (reach edges visit.node visits)

/-- The nodes that edges join to the first one, breadth first. -/
def traversal (draft : PatternDraft) : List Visit :=
  traverse draft.edges draft.nodes.length 0 [⟨0, none⟩]

def build (draft : PatternDraft) : Except PatternError Pattern := do
  if draft.nodes.isEmpty then throw (.empty draft.name)
  draft.checkSlots
  draft.checkBindings
  if !draft.isAcyclic then throw (.cyclic draft.name)
  if draft.traversal.length ≠ draft.nodes.length then throw (.disconnected draft.name)
  pure { draft with traversal := draft.traversal }

end PatternDraft

namespace Pattern

/-- The places of the slots on one side of the only node. -/
def slotsOf (count : Nat) : List SlotRef := (List.range count).map fun slot => ⟨0, slot⟩

/-- One node, all slots of which are boundaries. -/
def singleton (node : OperatorPattern) : Pattern :=
  { name := node.name, nodes := [node], edges := []
    inputs := slotsOf node.kind.inputs
    outputs := slotsOf node.kind.outputs
    traversal := [⟨0, none⟩] }

def kinds (pattern : Pattern) : List Kind :=
  Kind.all.filter fun kind => pattern.nodes.any (·.kind == kind)

end Pattern

end CrossPlan
