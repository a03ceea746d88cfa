import CrossPlan.Load

/-!
# Lineage of a run

A run leaves a graph behind: for each task what it was expected to cost and what it did cost, for
each channel and each conversion how many rows went through, and which node came after which.
-/

set_option autoImplicit false

namespace CrossPlan

inductive Phase where
  | prepare
  | main
  | channel
  | conversion
  deriving DecidableEq, Repr, Inhabited

def Phase.all : List Phase := [.prepare, .main, .channel, .conversion]

def Phase.name : Phase → String
  | .prepare => "prepare"
  | .main => "main"
  | .channel => "channel"
  | .conversion => "conversion"

def Phase.ofName? (name : String) : Option Phase :=
  all.find? fun phase => phase.name == name

/-- What one phase of a task took and handled. -/
structure RealizedCost (α : Type) where
  elapsedMs : α
  inputRows : Nat
  outputRows : Nat
  outputBytes : Nat

structure LineageNode (α : Type) where
  task : Nat
  operator : String
  phase : Phase
  costKey : Option String
  estimate : Option (LoadProfile α)
  realized : Option (RealizedCost α)
  channel : Option Nat

/-- A node that records only where it belongs. -/
def LineageNode.bare {α : Type} (task : Nat) (operator : String) (phase : Phase) : LineageNode α :=
  ⟨task, operator, phase, none, none, none, none⟩

/-- The nodes in the order of their numbers, and the edges from a node to one after it. -/
structure Lineage (α : Type) where
  nodes : List (LineageNode α)
  edges : List (Nat × Nat)

namespace Lineage

variable {α : Type}

def empty : Lineage α := ⟨[], []⟩

/-- Appends a node; its number is the number of nodes before it. -/
def add (lineage : Lineage α) (node : LineageNode α) : Lineage α :=
  { lineage with nodes := lineage.nodes ++ [node] }

def size (lineage : Lineage α) : Nat := lineage.nodes.length

/-- Records that one node comes after another, once. -/
def precede (lineage : Lineage α) (earlier later : Nat) : Lineage α :=
  if lineage.edges.contains (earlier, later) then lineage
  else { lineage with edges := lineage.edges ++ [(earlier, later)] }

def modify (lineage : Lineage α) (node : Nat) (change : LineageNode α → LineageNode α) :
    Lineage α :=
  { lineage with nodes := lineage.nodes.modify node change }

def predecessors (lineage : Lineage α) (node : Nat) : List Nat :=
  (lineage.edges.filter fun edge => edge.2 == node).map (·.1)

def ofPhase (lineage : Lineage α) (phase : Phase) : List (Nat × LineageNode α) :=
  (lineage.nodes.zipIdx.filter fun entry => entry.1.phase == phase).map fun entry =>
    (entry.2, entry.1)

/-- What does not depend on the rows of a run: the places of the nodes and the edges. -/
structure Shape where
  nodes : List (Nat × String × Phase)
  edges : List (Nat × Nat)
  deriving DecidableEq

def shape (lineage : Lineage α) : Shape :=
  ⟨lineage.nodes.map fun node => (node.task, node.operator, node.phase), lineage.edges⟩

end Lineage

/-- A lineage that is finished, with the run it comes from. -/
structure LineageReport (α : Type) where
  runId : String
  engineVersion : String
  fingerprint : String
  startedMs : Nat
  finishedMs : Nat
  lineage : Lineage α

def engineVersion : String := "0.1.0"

def Lineage.report {α : Type} (lineage : Lineage α) (runId fingerprint : String)
    (startedMs finishedMs : Nat) : LineageReport α :=
  ⟨runId, engineVersion, fingerprint, startedMs, finishedMs, lineage⟩

end CrossPlan
