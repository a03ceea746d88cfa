import CrossPlan.Execution.Text
import CrossPlan.Lineage.Text

/-!
# Running execution plans

The tasks of a plan run one after the other.  A task takes the channels that wait at its inputs, fills
new channels, and these are routed through the junctions of the plan: copied for all targets but the
last, converted where needed, and left waiting at the inputs of the consumers.  The first fault ends
the run.
-/

set_option autoImplicit false

namespace CrossPlan

/-- A channel that was made in a run, and the input that it was made for, if it is a copy or a
converted one. -/
structure CreatedChannel where
  id : Nat
  form : Form
  producer : Nat
  consumer : Option TaskSlot
  deriving DecidableEq, Repr

/-- A contradiction between a plan and its run. -/
inductive RunFault where
  | unknownTask (task : Nat)
  | unconsumed (slot : TaskSlot)
  | missingInput (slot : TaskSlot) (operator : String)
  | emptyInput (slot : TaskSlot) (operator : String)
  | noJunction (slot : TaskSlot) (operator : String)
  | wrongCount (operator : String) (produced declared : Nat)
  | emptyOutput (operator : String) (slot : Nat)
  | noTargets (slot : TaskSlot)
  | conversion (slot : TaskSlot) (error : ChannelError)
  | fedTwice (slot : TaskSlot)
  deriving DecidableEq, Repr

/-- How the number of a task is shown. -/
def taskLabel (task : Nat) : String := "TaskId(" ++ toString task ++ ")"

def RunFault.message : RunFault → String
  | .unknownTask task => "ordered task " ++ taskLabel task ++ " does not exist"
  | .unconsumed slot => "channel for " ++ slot.label ++ " was never consumed"
  | .missingInput slot operator =>
    "input " ++ slot.label ++ " of '" ++ operator ++ "' was never produced"
  | .emptyInput slot operator => "input " ++ slot.label ++ " of '" ++ operator ++ "' is empty"
  | .noJunction slot operator =>
    "output " ++ slot.label ++ " of '" ++ operator ++ "' has no junction"
  | .wrongCount operator produced declared =>
    "'" ++ operator ++ "' produced " ++ toString produced ++ " channel(s), declared "
      ++ toString declared
  | .emptyOutput operator slot => "'" ++ operator ++ "' left output " ++ toString slot ++ " empty"
  | .noTargets slot => "junction from " ++ slot.label ++ " has no targets"
  | .conversion slot error => "conversion into " ++ slot.label ++ ": " ++ error.message
  | .fedTwice slot => slot.label ++ " is fed twice"

inductive RunError where
  /-- an operator failed, on the given input and output channels -/
  | execution (task : Nat) (operator : String) (platform : Platform)
      (inputs outputs : List (Nat × Form)) (source : EvaluationError)
  | internal (fault : RunFault)
  | persist (path : String) (fault : FileFault)
  | encode
  deriving DecidableEq, Repr

/-- The text of an error, in which a contradiction comes with the lines of the plan. -/
def RunError.message (plan : List String) : RunError → String
  | .execution task operator platform inputs outputs source =>
    let shown (channels : List (Nat × Form)) : String :=
      ", ".intercalate (channels.map fun channel =>
        "ChannelId(" ++ toString channel.1 ++ ")/" ++ channel.2.name)
    operator ++ " (" ++ taskLabel task ++ ", " ++ platform.name ++ ") failed on in [" ++ shown inputs
      ++ "] out [" ++ shown outputs ++ "]: " ++ source.message
  | .internal fault =>
    "internal consistency fault: " ++ fault.message ++ "\n"
      ++ String.join (plan.map fun line => line ++ "\n")
  | .persist path fault => "cannot persist lineage to " ++ path ++ ": " ++ fault.message
  | .encode => "lineage encoding: not a lineage"

structure RunSettings (α : Type) where
  parallelism : Nat
  elapsedMs : (task : Nat) → Phase → α

structure RunState (α : Type) where
  lineage : Lineage α
  pending : List (TaskSlot × Channel)
  created : List CreatedChannel
  workspace : Workspace

/-- A step of a run, which changes the state even if it fails. -/
abbrev RunStep (α : Type) := ExceptT RunError (StateM (RunState α))

namespace RunStep

variable {α : Type}

def fail {β : Type} (fault : RunFault) : RunStep α β := throw (.internal fault)

/-- The given value, or a contradiction where there is none. -/
def require {β : Type} (fault : RunFault) : Option β → RunStep α β
  | some b => pure b
  | none => fail fault

/-- Records a channel; its number is the number of channels before it. -/
def record (form : Form) (producer : Nat) (consumer : Option TaskSlot) : RunStep α Nat := do
  let state ← get
  let id := state.created.length
  let channel : CreatedChannel := { id, form, producer, consumer }
  set { state with created := state.created ++ [channel] }
  pure id

/-- Adds a node of the lineage behind the given ones, and answers with its number. -/
def note (node : LineageNode α) (earlier : List Nat) : RunStep α Nat := do
  let state ← get
  let id := state.lineage.size
  let lineage := earlier.foldl (fun lineage before => lineage.precede before id)
    (state.lineage.add node)
  set { state with lineage }
  pure id

def take (slot : TaskSlot) (operator : String) : RunStep α Channel := do
  let state ← get
  let channel ← require (.missingInput slot operator) (state.pending.lookup slot)
  set { state with pending := state.pending.filter fun entry => entry.1 != slot }
  if channel.produced then pure channel else fail (.emptyInput slot operator)

def createOutput (plan : ExecutionPlan α) (slot : TaskSlot) (operator : String) :
    RunStep α Channel := do
  let junction ← require (.noJunction slot operator) (plan.junctionFrom? slot)
  pure (.create (← record junction.form slot.task none) junction.form slot.task)

variable [Quantity α]

/-- The node of a channel that an operator filled. -/
def channelNode (task : Nat) (operator : String) (channel : Channel) : LineageNode α :=
  { LineageNode.bare task operator .channel with
    realized := some ⟨Quantity.zero, channel.cardinality, channel.cardinality, channel.bytes⟩
    channel := some channel.id }

omit [Quantity α] in
def conversionNode (task : Nat) (conversion : Conversion) (elapsedMs : α) (before after : Channel) :
    LineageNode α :=
  { LineageNode.bare task conversion.key .conversion with
    costKey := some conversion.key
    realized := some ⟨elapsedMs, before.cardinality, after.cardinality, after.bytes⟩
    channel := some after.id }

omit [Quantity α] in
/-- Converts a channel on its way to an input. -/
def convert (settings : RunSettings α) (target : TaskSlot) (channel : Channel)
    (conversion : Conversion) : RunStep α Channel := do
  let id ← record conversion.target channel.producer (some target)
  match channel.convert conversion id settings.parallelism with
  | .error error => fail (.conversion target error)
  | .ok converted =>
    let node := conversionNode target.task conversion (settings.elapsedMs target.task .conversion)
      channel converted
    pure (converted.withLineage (← note node channel.lineage.toList))

omit [Quantity α] in
def deliver (settings : RunSettings α) (target : JunctionTarget α) (channel : Channel) :
    RunStep α Unit := do
  let channel ← target.conversions.foldlM (convert settings target.consumer) channel
  let state ← get
  set { state with pending := state.pending ++ [(target.consumer, channel)] }
  if (state.pending.lookup target.consumer).isSome then fail (.fedTwice target.consumer)

omit [Quantity α] in
/-- Copies a channel for each target but the last, which gets the channel itself. -/
def copies (channel : Channel) : List (JunctionTarget α) →
    RunStep α (List (JunctionTarget α × Channel))
  | [] => pure []
  | [last] => pure [(last, channel)]
  | target :: rest => do
    let id ← record channel.form channel.producer (some target.consumer)
    pure ((target, channel.duplicate id) :: (← copies channel rest))

omit [Quantity α] in
/-- Carries a channel to all targets of its junction. -/
def route (settings : RunSettings α) (junction : Junction α) (channel : Channel) :
    RunStep α Unit := do
  if junction.targets.isEmpty then fail (.noTargets junction.producer)
  (← copies channel junction.targets).forM fun (target, channel) =>
    deliver settings target channel

/-- Takes in a channel that a task filled, and routes it. -/
def emitOutput (settings : RunSettings α) (plan : ExecutionPlan α) (task : CrossPlan.Task α)
    (main : Nat) (channel : Channel) (slot : Nat) : RunStep α Unit := do
  let name := task.operator.name
  if !channel.produced then fail (.emptyOutput name slot)
  let node ← note (channelNode task.id name channel) [main]
  let junction ← require (.noJunction ⟨task.id, slot⟩ name) (plan.junctionFrom? ⟨task.id, slot⟩)
  route settings junction (channel.withLineage node)

omit [Quantity α] in
/-- What a task is evaluated with. -/
def contextOf (settings : RunSettings α) (task : CrossPlan.Task α) : TaskContext α :=
  { task := task.id, name := task.operator.name
    prepareKey := task.operator.prepareKey, mainKey := task.operator.mainKey
    prepareEstimate := task.estimate.map (·.prepare), mainEstimate := task.estimate.map (·.main)
    elapsedMs := settings.elapsedMs task.id, parallelism := settings.parallelism }

omit [Quantity α] in
def evaluate (settings : RunSettings α) (task : CrossPlan.Task α) (inputs outputs : List Channel) :
    RunStep α (Evaluation α) := do
  let operator := task.operator
  let state ← get
  match operator.evaluate (contextOf settings task) inputs outputs state.workspace with
  | .ok (evaluation, workspace) =>
    set { state with workspace }
    pure evaluation
  | .error source =>
    let shown (channels : List Channel) := channels.map fun channel => (channel.id, channel.form)
    throw (.execution task.id operator.name operator.platform (shown inputs) (shown outputs) source)

def runTask (settings : RunSettings α) (plan : ExecutionPlan α) (task : CrossPlan.Task α) :
    RunStep α Unit := do
  let operator := task.operator
  let inputs ← (List.range operator.inputs).mapM fun slot => take ⟨task.id, slot⟩ operator.name
  let outputs ← (List.range operator.outputs).mapM fun slot =>
    createOutput plan ⟨task.id, slot⟩ operator.name
  let evaluation ← evaluate settings task inputs outputs
  let prepare ← note evaluation.prepare []
  let main ← note evaluation.main (prepare :: inputs.filterMap Channel.lineage)
  if evaluation.produced.length ≠ operator.outputs then
    fail (.wrongCount operator.name evaluation.produced.length operator.outputs)
  evaluation.produced.zipIdx.forM fun (channel, slot) =>
    emitOutput settings plan task main channel slot

def runPlan (settings : RunSettings α) (plan : ExecutionPlan α) : RunStep α Unit := do
  plan.order.forM fun id => do
    runTask settings plan (← require (.unknownTask id) plan.tasks[id]?)
  let waiting := (← get).pending.map (·.1)
  let first := waiting.mergeSort fun a b => a.task < b.task || (a.task == b.task && a.slot ≤ b.slot)
  match first with
  | slot :: _ => fail (.unconsumed slot)
  | [] => pure ()

end RunStep

namespace ExecutionPlan

variable {α : Type} [Quantity α]

/-- Runs a plan in a workspace, whose results from before are dropped.  What was left behind is
known also if the run failed. -/
def runIn (plan : ExecutionPlan α) (settings : RunSettings α) (workspace : Workspace) :
    Except RunError Unit × RunState α :=
  (RunStep.runPlan settings plan).run.run
    ⟨.empty, [], [], { workspace with results := .empty }⟩

/-- Runs a plan with the given files, where no other machine answers. -/
def run (plan : ExecutionPlan α) (settings : RunSettings α) (files : Files) :
    Except RunError Unit × RunState α :=
  plan.runIn settings (.ofFiles files)

end ExecutionPlan

end CrossPlan
