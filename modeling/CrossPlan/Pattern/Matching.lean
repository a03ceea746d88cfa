import CrossPlan.Pattern.Basic

/-!
# Where a pattern occurs in a plan

A match binds each node of a pattern to an operator of its own, such that the edges of the plan
among these operators are exactly those of the pattern, and no internal output is read elsewhere.
Matches are found along the traversal of the pattern.
-/

set_option autoImplicit false

namespace CrossPlan

structure SubplanMatch where
  nodes : List Nat
  /-- the declared input boundaries in their order, then the broadcast inputs of the operators -/
  inputs : List SlotRef
  outputs : List SlotRef
  deriving DecidableEq, Repr

/-- The operators that a match covers, in ascending order. -/
def SubplanMatch.covered (found : SubplanMatch) : List Nat :=
  found.nodes.mergeSort fun a b => a ≤ b

/-- The operators bound so far, under their nodes. -/
abbrev Binding := List (Nat × Nat)

namespace Pattern

/-- The operators that can stand for a node which is reached along an edge. -/
def reachable (pattern : Pattern) (plan : Plan) (bound : Binding) (visit : Visit) : List Nat :=
  match visit.via with
  | none => List.range plan.size
  | some place =>
    match pattern.edges[place]? with
    | none => []
    | some edge =>
      if edge.target.operator = visit.node then
        match bound.lookup edge.source.operator with
        | none => []
        | some producer =>
          ((plan.consumersOf ⟨producer, edge.source.slot⟩).filter
            fun input => input.slot == edge.target.slot).map (·.operator)
      else
        match bound.lookup edge.target.operator with
        | none => []
        | some consumer =>
          match plan.producerOf? ⟨consumer, edge.target.slot⟩ with
          | some output => if output.slot = edge.source.slot then [output.operator] else []
          | none => []

def admits (pattern : Pattern) (plan : Plan) (bound : Binding) (node id : Nat) : Bool :=
  !(bound.map (·.2)).contains id &&
    match pattern.nodes[node]?, plan.operators[id]? with
    | some asked, some operator => asked.fits operator
    | _, _ => false

/-- Every way to bind the nodes of the rest of a traversal. -/
def bindings (pattern : Pattern) (plan : Plan) : List Visit → Binding → List Binding
  | [], bound => [bound]
  | visit :: rest, bound =>
    ((pattern.reachable plan bound visit).filter (pattern.admits plan bound visit.node)).flatMap
      fun id => bindings pattern plan rest (bound ++ [(visit.node, id)])

/-- The operator bound to each node, if every node is bound. -/
def operators? (pattern : Pattern) (bound : Binding) : Option (List Nat) :=
  (List.range pattern.nodes.length).mapM fun node => bound.lookup node

/-- A slot of a pattern as a slot of the plan. -/
def slotIn (nodes : List Nat) (slot : SlotRef) : SlotRef :=
  ⟨nodes.getD slot.operator 0, slot.slot⟩

def edgeIn (nodes : List Nat) (edge : Edge) : Edge :=
  ⟨slotIn nodes edge.source, slotIn nodes edge.target⟩

/-- Whether an edge of the pattern is one of the plan, and its output is read by matched operators
only. -/
def realized (plan : Plan) (nodes : List Nat) (edge : Edge) : Bool :=
  let image := edgeIn nodes edge
  plan.producerOf? image.target == some image.source &&
    (plan.consumersOf image.source).all fun input => nodes.contains input.operator

/-- Whether the edges of the plan among matched operators are those of the pattern. -/
def isInduced (pattern : Pattern) (plan : Plan) (nodes : List Nat) : Bool :=
  pattern.edges.all (realized plan nodes) &&
    plan.edges.all fun edge =>
      !(nodes.contains edge.source.operator && nodes.contains edge.target.operator)
        || (pattern.edges.map (edgeIn nodes)).contains edge

def broadcastInputs (plan : Plan) (id : Nat) : List SlotRef :=
  match plan.operators[id]? with
  | some operator => operator.broadcasts.map fun broadcast => ⟨id, broadcast.1⟩
  | none => []

def matchOf (pattern : Pattern) (plan : Plan) (nodes : List Nat) : SubplanMatch :=
  { nodes
    inputs := pattern.inputs.map (slotIn nodes) ++ nodes.flatMap (broadcastInputs plan)
    outputs := pattern.outputs.map (slotIn nodes) }

/-- All matches of a pattern in a plan, each once, in ascending order of their operators. -/
def findMatches (pattern : Pattern) (plan : Plan) : List SubplanMatch :=
  let found := (pattern.bindings plan pattern.traversal []).filterMap pattern.operators?
  let found := (found.filter (pattern.isInduced plan)).eraseDups.mergeSort Count.inOrder
  found.map (pattern.matchOf plan)

end Pattern

end CrossPlan
