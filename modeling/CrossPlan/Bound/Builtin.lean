import CrossPlan.Bound.Basic
import CrossPlan.Plan.Basic
import CrossPlan.Renaming

/-!
# The built-in operators

Each operator of a plan can be bound to either platform.  In the local process it takes streams and
collections, on the distributed engine parts, which it handles one by one.
-/

set_option autoImplicit false

namespace CrossPlan

/-- What a built-in operator does, with its parameters read. -/
inductive BoundAction where
  | collectionSource (rows : List Record)
  | textSource (url : String)
  /-- a filter with the input slots of its broadcasts and the number of all inputs -/
  | filter (predicate : Predicate) (slots : List (String × Nat)) (inputs : Nat)
  /-- a filter and a projection in one pass -/
  | filterProject (predicate : Predicate) (columns : List String)
  | map (renames : List (String × String))
  | project (columns : List String)
  | union
  | sink (destination : Destination)

namespace BoundAction

def kind : BoundAction → String
  | .collectionSource _ => Kind.collectionSource.name
  | .textSource _ => Kind.textSource.name
  | .filter .. => Kind.filter.name
  | .filterProject .. => "filter_project"
  | .map _ => Kind.map.name
  | .project _ => Kind.project.name
  | .union => Kind.union.name
  | .sink _ => Kind.sink.name

def inputs : BoundAction → Nat
  | .collectionSource _ | .textSource _ => 0
  | .filter _ _ inputs => inputs
  | .union => 2
  | _ => 1

def outputs : BoundAction → Nat
  | .sink _ => 0
  | _ => 1

/-- The forms in which operators of a platform hand rows on. -/
def mainForms : Platform → List Form
  | .inProcess => [.stream, .collection]
  | .distributed => [.partitioned]

/-- The forms that an input takes.  A distributed sink gathers parts itself, so that it takes a
collection as well. -/
def inputForms (platform : Platform) : BoundAction → List Form
  | .collectionSource _ | .textSource _ => []
  | .sink _ =>
    match platform with
    | .inProcess => mainForms .inProcess
    | .distributed => [.partitioned, .collection]
  | _ => mainForms platform

def outputForms (platform : Platform) : BoundAction → List Form
  | .sink _ => []
  | _ => mainForms platform

/-! ## Evaluation -/

def expectInputs (name : String) (expected : Nat) (inputs : List Channel) :
    Except EvaluationError Unit :=
  if inputs.length = expected then .ok ()
  else .error (.invalidParameters (name ++ " expects " ++ toString expected
    ++ " input channel(s), got " ++ toString inputs.length))

def fillOutput (name : String) (parts : List (List Record)) :
    List Channel → Except EvaluationError (List Channel)
  | [] => .error (.invalidParameters (name ++ " was given no output channel"))
  | output :: rest => .ok (output.acceptParts parts :: rest)

/-- The rows of a source in the parts that its platform works on. -/
def sourceParts (platform : Platform) (parallelism : Nat) (rows : List Record) :
    List (List Record) :=
  match platform with
  | .inProcess => [rows]
  | .distributed => dealRows rows parallelism

def partsOf (channel : Channel) : Except EvaluationError (List (List Record)) :=
  channel.parts.mapError .input

def rowsOf (channel : Channel) : Except EvaluationError (List Record) :=
  channel.rows.mapError .input

def readLines (workspace : Workspace) (url : String) : Except EvaluationError (List Record) :=
  match workspace.readText url with
  | .error fault => .error (.dataAccess url fault)
  | .ok text => .ok ((Text.lines text.toList).map fun line =>
      ⟨[("line", .text (String.ofList line))]⟩)

/-- The values of the broadcasts that a predicate looks up. -/
def memberships (predicate : Predicate) (slots : List (String × Nat)) (inputs : List Channel) :
    Except EvaluationError Memberships :=
  predicate.memberships.foldlM (fun members (column, broadcast) => do
    let side := (slots.find? fun slot => slot.1 == broadcast).bind fun slot => inputs[slot.2]?
    match side with
    | none => throw (.invalidParameters ("missing broadcast input @" ++ broadcast))
    | some channel =>
      pure (members.insert broadcast column (broadcastMembers column (← rowsOf channel))))
    Memberships.none

def deliver (destination : Destination) (rows : List Record) (workspace : Workspace) :
    Except EvaluationError Workspace :=
  match destination with
  | .memory name => .ok (workspace.append name rows)
  | .file path =>
    match workspace.files.write path (jsonLines rows).toUTF8 with
    | .ok files => .ok { workspace with files }
    | .error fault => .error (.dataAccess path fault)

/-- The parts that an operator puts out, given its inputs, and the number of rows that it read. -/
def transform (action : BoundAction) (name : String) (inputs : List Channel) :
    Except EvaluationError (List (List Record) × Nat) := do
  expectInputs name action.inputs inputs
  let rowsRead := Count.total (inputs.map Channel.cardinality)
  let main := fun (_ : Unit) => match inputs with
    | [] => throw (.invalidParameters (name ++ " has no main input"))
    | channel :: _ => partsOf channel
  match action with
  | .filter predicate slots _ =>
    let members ← memberships predicate slots inputs
    pure ((← main ()).map fun part => part.filter fun row => predicate.eval row members, rowsRead)
  | .filterProject predicate columns =>
    let kept (part : List Record) : List Record :=
      part.filter fun row => predicate.eval row Memberships.none
    pure ((← main ()).map fun part => (kept part).map (Record.project columns), rowsRead)
  | .map renames => pure ((← main ()).map fun part => part.map (Record.rename renames), rowsRead)
  | .project columns =>
    pure ((← main ()).map fun part => part.map (Record.project columns), rowsRead)
  | _ => pure ((← inputs.mapM partsOf).flatten, rowsRead)

def evaluate {α : Type} (action : BoundAction) (name : String) (platform : Platform) :
    Evaluator α := fun context inputs outputs workspace => do
  match action with
  | .collectionSource rows =>
    let produced ← fillOutput name (sourceParts platform context.parallelism rows) outputs
    pure (context.evaluation 0 produced, workspace)
  | .textSource url =>
    let rows ← readLines workspace url
    let produced ← fillOutput name (sourceParts platform context.parallelism rows) outputs
    pure (context.evaluation 0 produced, workspace)
  | .sink destination =>
    expectInputs name 1 inputs
    let rows ← (inputs.mapM rowsOf).map List.flatten
    let workspace ← deliver destination rows workspace
    pure (context.evaluation rows.length outputs, workspace)
  | _ =>
    let (parts, rowsRead) ← action.transform name inputs
    let produced ← fillOutput name parts outputs
    pure (context.evaluation rowsRead produced, workspace)

def toOperator {α : Type} (action : BoundAction) (name : String) (platform : Platform)
    (epoch : Nat) : BoundOperator α :=
  { name, platform, epoch
    kind := action.kind
    inputs := action.inputs
    outputs := action.outputs
    inputForms := fun _ => action.inputForms platform
    outputForms := fun _ => action.outputForms platform
    evaluate := action.evaluate name platform }

end BoundAction

/-! ## Binding -/

/-- The input slots of the broadcasts that a predicate reads. -/
def broadcastSlots (operator : Operator) (predicate : Predicate) :
    Except BindError (List (String × Nat)) :=
  predicate.broadcasts.mapM fun name =>
    match operator.broadcasts.find? fun broadcast => broadcast.2 == name with
    | some (slot, _) => .ok (name, slot)
    | none => .error (.unknownBroadcast name)

/-- What an operator of a plan does, with its parameters read. -/
def Operator.bound (operator : Operator) : Except BindError BoundAction := do
  match operator.action with
  | .collectionSource rows => pure (.collectionSource rows)
  | .textSource url => pure (.textSource url)
  | .filter text =>
    let predicate ← Predicate.read text
    pure (.filter predicate (← broadcastSlots operator predicate) operator.inputs.length)
  | .map text => pure (.map (parseRenames text))
  | .project columns => pure (.project columns)
  | .union => pure .union
  | .sink text => pure (.sink (← Destination.read text))

def Operator.bind {α : Type} (operator : Operator) (platform : Platform) (epoch : Nat) :
    Except BindError (BoundOperator α) := do
  pure ((← operator.bound).toOperator operator.name platform epoch)

/-- A filter and a projection in one pass; the predicate may not read broadcasts. -/
def fusedAction (predicate : String) (columns : List String) : Except BindError BoundAction := do
  let predicate ← Predicate.read predicate
  match predicate.broadcasts with
  | name :: _ => throw (.unknownBroadcast name)
  | [] => pure (.filterProject predicate columns)

end CrossPlan
