/-!
# Kinds of operators

The closed list of what an operator of a plan can do, in the order in which kinds are sorted.
-/

set_option autoImplicit false

namespace CrossPlan

inductive Kind where
  | collectionSource
  | textSource
  | filter
  | map
  | project
  | union
  | sink
  deriving DecidableEq, Repr, Inhabited

namespace Kind

def all : List Kind := [.collectionSource, .textSource, .filter, .map, .project, .union, .sink]

def name : Kind → String
  | .collectionSource => "collection_source"
  | .textSource => "text_file_source"
  | .filter => "filter"
  | .map => "map"
  | .project => "project"
  | .union => "union"
  | .sink => "sink"

def ofName? (name : String) : Option Kind :=
  all.find? fun kind => kind.name == name

def index (kind : Kind) : Nat := all.idxOf kind

/-- How many main inputs an operator has. -/
def inputs : Kind → Nat
  | .collectionSource | .textSource => 0
  | .filter | .map | .project | .sink => 1
  | .union => 2

def outputs : Kind → Nat
  | .sink => 0
  | _ => 1

def isSource (kind : Kind) : Bool := kind.inputs == 0

def isSink (kind : Kind) : Bool := kind.outputs == 0

end Kind

end CrossPlan
