import CrossPlan.Estimation.Cardinality
import CrossPlan.Json.Shape
import CrossPlan.Yaml.Resolution

/-!
# Pipelines

A pipeline lists the steps of a plan, with settings and row counts beside it.  A step follows the
one before it unless it names its inputs.
-/

set_option autoImplicit false

namespace CrossPlan

inductive PipelineError where
  | unreadable
  | noSteps
  | unknownStep (name : String)
  | nothingPrecedes (step : Nat) (kind : Kind)
  | wrongInputs (step : Nat) (kind : Kind) (given : Nat)
  | duplicateStep (name : String)
  | settings (error : ConfigError Float)
  | plan (error : PlanError)

def PipelineError.message : PipelineError → String
  | .unreadable => "cannot parse pipeline"
  | .plan error => error.message
  | .noSteps => "invalid pipeline: pipeline has no steps"
  | .unknownStep name => "invalid pipeline: unknown step '" ++ name ++ "'"
  | .nothingPrecedes step kind =>
    "invalid pipeline: step " ++ toString step ++ " (" ++ kind.name
      ++ ") needs an input but nothing precedes it"
  | .wrongInputs step kind given =>
    "invalid pipeline: step " ++ toString step ++ " (" ++ kind.name ++ ") takes "
      ++ toString kind.inputs ++ " input(s), got " ++ toString given
  | .duplicateStep name => "invalid pipeline: duplicate step id '" ++ name ++ "'"
  | .settings error => "invalid pipeline: " ++ error.message

structure PipelineSettings where
  exhaustiveLimit : Option Nat
  priority : Option (List String)
  uncertaintyPenalty : Option Float
  defaultCardinality : Option Nat
  parallelism : Option Nat
  lineageDir : Option String

structure PipelineStep where
  id : Option String
  inputs : List String
  /-- the names of the steps that feed the broadcasts, under the names of the broadcasts -/
  broadcasts : Table String
  action : Action

structure PipelineDocument where
  settings : PipelineSettings
  hints : Hints
  steps : List PipelineStep

/-- A pipeline whose steps make up a valid plan. -/
structure Pipeline where
  plan : Plan
  settings : PipelineSettings
  hints : Hints

namespace PipelineSettings

def none : PipelineSettings :=
  ⟨.none, .none, .none, .none, .none, .none⟩

/-- Replaces the settings in turn, up to the first that cannot be used. -/
def apply (settings : PipelineSettings) (config : EngineConfig Float) :
    EngineConfig Float × Except PipelineError Unit :=
  let optimizer := config.optimizer
  let optimizer := { optimizer with
    exhaustiveLimit := settings.exhaustiveLimit.getD optimizer.exhaustiveLimit }
  let priority : Except (ConfigError Float) (List Platform) := match settings.priority with
    | .none => .ok optimizer.priority
    | some names => parsePriority (",".intercalate names)
  match priority with
  | .error error => ({ config with optimizer }, .error (.settings error))
  | .ok priority =>
    let weights := optimizer.weights
    let weights := { weights with
      uncertaintyPenalty := settings.uncertaintyPenalty.getD weights.uncertaintyPenalty }
    let estimator := config.estimator
    ({ optimizer := { optimizer with priority, weights }
       estimator := { estimator with
         defaultCardinality := settings.defaultCardinality.getD estimator.defaultCardinality }
       parallelism := settings.parallelism.getD config.parallelism
       lineageDir := settings.lineageDir.or config.lineageDir }, .ok ())

end PipelineSettings

/-! ## Building the plan -/

/-- The plan of the steps so far, the numbers of the named ones, and the number of the last one. -/
structure PipelineDraft where
  plan : Plan
  names : Table Nat
  previous : Option Nat

namespace PipelineDraft

def empty : PipelineDraft := ⟨.empty, .empty, none⟩

def find (draft : PipelineDraft) (name : String) : Except PipelineError Nat :=
  match draft.names.get? name with
  | some id => .ok id
  | none => .error (.unknownStep name)

/-- The operators that feed the main inputs of a step. -/
def inputsOf (draft : PipelineDraft) (place : Nat) (step : PipelineStep) :
    Except PipelineError (List Nat) := do
  let kind := step.action.kind
  let inputs ←
    if !step.inputs.isEmpty then step.inputs.mapM draft.find
    else if kind.inputs = 1 then
      match draft.previous with
      | some previous => pure [previous]
      | none => throw (.nothingPrecedes place kind)
    else pure []
  if inputs.length = kind.inputs then pure inputs
  else throw (.wrongInputs place kind inputs.length)

def connectMain (plan : Plan) (id : Nat) (inputs : List Nat) : Except PipelineError Plan :=
  inputs.zipIdx.foldlM (fun plan (source, slot) =>
    (plan.connect ⟨source, 0⟩ ⟨id, slot⟩).mapError .plan) plan

def connectBroadcasts (draft : PipelineDraft) (plan : Plan) (id : Nat)
    (broadcasts : Table String) : Except PipelineError Plan :=
  broadcasts.rows.foldlM (fun plan (name, step) => do
    let source ← draft.find step
    let (plan, slot) ← (plan.addBroadcast id name).mapError .plan
    (plan.connect ⟨source, 0⟩ ⟨id, slot⟩).mapError .plan) plan

/-- Adds a step behind the steps so far. -/
def add (draft : PipelineDraft) (entry : PipelineStep × Nat) :
    Except PipelineError PipelineDraft := do
  let (step, place) := entry
  let id := draft.plan.size
  let plan := draft.plan.addNamed (step.id.getD step.action.kind.name) step.action
  let inputs ← draft.inputsOf place step
  let plan ← connectMain plan id inputs
  let plan ← connectBroadcasts draft plan id step.broadcasts
  match step.id with
  | none => pure ⟨plan, draft.names, some id⟩
  | some name =>
    if (draft.names.get? name).isSome then throw (.duplicateStep name)
    pure ⟨plan, draft.names.insert name id, some id⟩

end PipelineDraft

def PipelineDocument.build (document : PipelineDocument) : Except PipelineError Pipeline := do
  if document.steps.isEmpty then throw .noSteps
  let draft ← document.steps.zipIdx.foldlM PipelineDraft.add .empty
  draft.plan.validate.mapError .plan
  pure ⟨draft.plan, document.settings, document.hints⟩

/-! ## Reading the document -/

/-- The value of a key that is there at most once. -/
def onlyValue? {β : Type} (entries : List (String × β)) (name : String) : Option (Option β) :=
  match entries.filter fun entry => entry.1 == name with
  | [] => some none
  | [entry] => some (some entry.2)
  | _ => none

/-- A value that may be left out. -/
def settingOf? {β : Type} (entries : List (String × Yaml.Node)) (name : String)
    (read : Yaml.Node → Option β) : Option (Option β) := do
  match ← onlyValue? entries name with
  | none => pure none
  | some node => node.optional read

/-- A table that may be left out. -/
def tableOf? {β : Type} (entries : List (String × Yaml.Node)) (name : String)
    (read : Yaml.Node → Option β) : Option (Table β) := do
  match ← onlyValue? entries name with
  | none => pure .empty
  | some node => (node.mapOf? read).map Table.ofList

namespace PipelineSettings

def ofNode? (node : Yaml.Node) : Option PipelineSettings := do
  let entries ← node.entries?
  pure
    { exhaustiveLimit := ← settingOf? entries "exhaustive_candidate_limit" Yaml.Node.word?
      priority := ← settingOf? entries "platform_priority" (Yaml.Node.listOf? Yaml.Node.text?)
      uncertaintyPenalty := ← settingOf? entries "uncertainty_penalty" Yaml.Node.double?
      defaultCardinality := ← settingOf? entries "default_cardinality" Yaml.Node.word?
      parallelism := ← settingOf? entries "parallelism" Yaml.Node.word?
      lineageDir := ← settingOf? entries "lineage_dir" Yaml.Node.text? }

end PipelineSettings

namespace PipelineStep

def operations : List String := ["source", "text", "filter", "map", "project", "union", "sink"]

def operationOf? : Json → Option String
  | .text name => if operations.contains name then some name else none
  | .int (.ofNat n) => operations[n]?
  | _ => none

/-- The action of a step, by its operation and the values under its other keys. -/
def actionOf? (operation : String) (field? : String → Option Json) : Option Action :=
  let text (name : String) : Option String := (field? name).bind Json.text?
  match operation with
  | "source" => do
    let rows ← (← field? "records").list?
    pure (.collectionSource (rows.map Record.ofJson))
  | "text" => (text "url").map .textSource
  | "filter" => (text "predicate").map .filter
  | "map" => (text "expr").map .map
  | "project" => do pure (.project (← Json.listOf? Json.text? (← field? "columns")))
  | "union" => some .union
  | "sink" => (text "destination").map .sink
  | _ => none

/-- The names of the steps that feed the main inputs, which may be left out. -/
def inputsOf? (entries : List (String × Yaml.Node)) : Option (List String) := do
  match ← onlyValue? entries "inputs" with
  | none => pure []
  | some node => node.listOf? Yaml.Node.text?

/-- The depth to which a value in a step may be nested. -/
def valueDepth : Nat := 125

def ofNode? (node : Yaml.Node) : Option PipelineStep := do
  let entries ← node.entries?
  let named := ["id", "inputs", "broadcasts"]
  let others := entries.filter fun entry => !named.contains entry.1
  others.forM fun entry => (entry.2.toJson? true valueDepth).map fun _ => ()
  let field? (name : String) : Option Json := do
    let node ← (onlyValue? others name).join
    node.toJson? false valueDepth
  let operation ← operationOf? (← field? "op")
  pure
    { id := ← settingOf? entries "id" Yaml.Node.text?
      inputs := ← inputsOf? entries
      broadcasts := ← tableOf? entries "broadcasts" Yaml.Node.text?
      action := ← actionOf? operation field? }

end PipelineStep

def PipelineDocument.ofNode? (node : Yaml.Node) : Option PipelineDocument := do
  let entries ← node.entries?
  let settings ← settingOf? entries "config" PipelineSettings.ofNode?
  pure
    { settings := settings.getD .none
      hints := ← tableOf? entries "hints" Yaml.Node.word?
      steps := ← (← (← onlyValue? entries "steps")).listOf? PipelineStep.ofNode? }

def Pipeline.read (text : String) : Except PipelineError Pipeline :=
  match (Yaml.Node.read? text).bind PipelineDocument.ofNode? with
  | none => .error .unreadable
  | some document => document.build

end CrossPlan
