import CrossPlan.Candidate
import CrossPlan.Channel.Route
import CrossPlan.Selection.Problem

/-!
# Execution plans

An execution plan is a graph of tasks.  A task runs one bound operator; a junction carries one
output of a task to all inputs that read it, with the conversions on the way.  A plan is accepted
when every input is fed once, every output has one junction, every junction can carry what it
promises and the tasks can be put into an order.
-/

set_option autoImplicit false

namespace CrossPlan

structure TaskSlot where
  task : Nat
  slot : Nat
  deriving DecidableEq, Repr, Inhabited

def TaskSlot.label (slot : TaskSlot) : String :=
  "task" ++ toString slot.task ++ "." ++ toString slot.slot

structure Task (α : Type) where
  id : Nat
  operator : BoundOperator α
  /-- the operators of the plan that the task stands for, together with others perhaps -/
  origin : List Nat
  candidate : Nat
  rule : String
  estimate : Option (OperatorEstimate α)

structure JunctionTarget (α : Type) where
  consumer : TaskSlot
  conversions : List Conversion
  crossPlatform : Bool
  cost : α

/-- One output of a task and where it goes. -/
structure Junction (α : Type) where
  producer : TaskSlot
  form : Form
  targets : List (JunctionTarget α)

def Junction.duplicates {α : Type} (junction : Junction α) : Bool :=
  junction.targets.length > 1

structure ExecutionPlan (α : Type) where
  tasks : List (Task α)
  junctions : List (Junction α)
  /-- the tasks in the order in which they run -/
  order : List Nat
  score : Score α
  epoch : Nat

namespace TaskGraph

variable {α : Type}

def fault {β : Type} (reason : String) : Except OptimizeError β := .error (.internal reason)

/-- Follows a chain of conversions from a form, unless one of them does not fit. -/
def follow? : Form → List Conversion → Option Form
  | form, [] => some form
  | form, step :: rest => if step.source = form then follow? step.target rest else none

/-- Whether a target can take what a junction carries. -/
def checkTarget (tasks : List (Task α)) (form : Form) (target : JunctionTarget α) :
    Except OptimizeError Unit :=
  let name := target.consumer.label
  match tasks[target.consumer.task]? with
  | none => fault ("junction into unknown " ++ name)
  | some consumer =>
    match follow? form target.conversions with
    | none => fault ("conversion chain into " ++ name ++ " is broken")
    | some arrived =>
      if (consumer.operator.inputForms target.consumer.slot).contains arrived then .ok ()
      else fault (name ++ " cannot consume " ++ arrived.name)

def checkJunction (tasks : List (Task α)) (junction : Junction α) : Except OptimizeError Unit := do
  let name := junction.producer.label
  match tasks[junction.producer.task]? with
  | none => fault ("junction from unknown " ++ name)
  | some producer =>
    if junction.targets.isEmpty then fault ("junction from " ++ name ++ " has no target")
    if !(producer.operator.outputForms junction.producer.slot).contains junction.form then
      fault (name ++ " cannot produce " ++ junction.form.name)
    junction.targets.forM (checkTarget tasks junction.form)

def fed (junctions : List (Junction α)) : List TaskSlot :=
  junctions.flatMap fun junction => junction.targets.map (·.consumer)

def carried (junctions : List (Junction α)) : List TaskSlot := junctions.map (·.producer)

/-- Whether each slot of a task is joined once. -/
def checkTask (junctions : List (Junction α)) (task : Task α) : Except OptimizeError Unit := do
  let shown (slot : Nat) : String :=
    (TaskSlot.mk task.id slot).label ++ " (" ++ task.operator.name ++ ")"
  (List.range task.operator.inputs).forM fun slot =>
    if (fed junctions).count ⟨task.id, slot⟩ = 1 then .ok ()
    else fault ("input " ++ shown slot ++ " is not fed exactly once")
  (List.range task.operator.outputs).forM fun slot =>
    if (carried junctions).count ⟨task.id, slot⟩ = 1 then .ok ()
    else fault ("output " ++ shown slot ++ " has no single junction")

/-- For each connection the task that comes before and the one that comes after. -/
def precedence (junctions : List (Junction α)) : List (Nat × Nat) :=
  junctions.flatMap fun junction =>
    junction.targets.map fun target => (junction.producer.task, target.consumer.task)

/-- The tasks that are listed or fed, in ascending order. -/
def numbers (tasks : List (Task α)) (junctions : List (Junction α)) : List Nat :=
  (tasks.map (·.id) ++ (precedence junctions).map (·.2)).eraseDups.mergeSort fun a b => a ≤ b

/-- The order in which tasks run: at each step the first of those whose producers have run. -/
def order (tasks : List (Task α)) (junctions : List (Junction α)) :
    Except OptimizeError (List Nat) :=
  let order := Precedence.schedule (numbers tasks junctions) (precedence junctions)
  if order.length = tasks.length then .ok order else fault "task graph is cyclic"

/-- The order in which tasks run, or the first fault of the graph. -/
def verify (tasks : List (Task α)) (junctions : List (Junction α)) :
    Except OptimizeError (List Nat) := do
  junctions.forM (checkJunction tasks)
  tasks.forM (checkTask junctions)
  order tasks junctions

end TaskGraph

namespace ExecutionPlan

variable {α : Type}

def create (tasks : List (Task α)) (junctions : List (Junction α)) (score : Score α)
    (epoch : Nat) : Except OptimizeError (ExecutionPlan α) := do
  pure ⟨tasks, junctions, ← TaskGraph.verify tasks junctions, score, epoch⟩

def cost (plan : ExecutionPlan α) : α := plan.score.cost

/-- The platforms of the tasks, each once, in their order. -/
def platforms (plan : ExecutionPlan α) : List Platform :=
  Platform.all.filter fun platform => plan.tasks.any (·.operator.platform == platform)

/-- The junction that carries an output. -/
def junctionFrom? (plan : ExecutionPlan α) (output : TaskSlot) : Option (Junction α) :=
  plan.junctions.find? fun junction => junction.producer == output

end ExecutionPlan

end CrossPlan
