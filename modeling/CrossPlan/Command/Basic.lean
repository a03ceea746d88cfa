import CrossPlan.Command.Options
import CrossPlan.Compiler
import CrossPlan.Estimation.Builtin
import CrossPlan.Lineage.Storage
import CrossPlan.Pipeline

/-!
# Commands

What a command prints, the code that it ends with and the files that it leaves, given the files and
the environment that it finds.
-/

set_option autoImplicit false

namespace CrossPlan

structure Surroundings where
  /-- the variables of the environment -/
  setting? : String → Option String
  files : Files
  runId : String
  startedMs : Nat
  finishedMs : Nat

/-- What a command leaves. -/
structure CommandResult where
  code : Nat
  output : List String
  errors : List String
  files : Files

namespace Command

def readFile (files : Files) (path : String) : Except String String :=
  (files.readText path).mapError FileFault.message

def readPipeline (files : Files) (path : String) : Except String Pipeline := do
  (Pipeline.read (← readFile files path)).mapError PipelineError.message

def withSettings (pipeline : Pipeline) (config : EngineConfig Float) :
    Except String (EngineConfig Float) :=
  let (config, applied) := pipeline.settings.apply config
  match applied with
  | .ok () => .ok config
  | .error error => .error error.message

def checkConfig (config : EngineConfig Float) : Except String Unit :=
  config.validate.mapError ConfigError.message

def withOptions (options : CompileOptions) (config : EngineConfig Float) :
    Except String (EngineConfig Float) := do
  let priority ← match options.priority with
    | none => pure config.optimizer.priority
    | some list => (parsePriority list).mapError ConfigError.message
  pure { config with
    optimizer := { config.optimizer with
      priority, exhaustiveLimit := options.exhaustiveLimit.getD config.optimizer.exhaustiveLimit }
    parallelism := options.parallelism.getD config.parallelism }

/-- The built-in cost models, with those of a file over them. -/
def specifications (files : Files) : Option String → Except String (Specifications Float)
  | none => .ok Specifications.builtin
  | some path => do
    let specs ← (Specifications.readYaml (← readFile files path)).mapError SpecError.message
    pure (Specifications.builtin.merge specs)

/-- Takes the samples of a kept lineage into a compiler. -/
def calibrateFrom (files : Files) (compiler : Compiler Float) (path : String) :
    Except String (Compiler Float) := do
  let report ← (LineageReport.load files path).mapError (RunError.message [])
  pure (compiler.calibrate report.lineage.nodes).1

/-- The pipeline of a command and the compiler for it.  Settings of the pipeline go over those of
the environment, and options go over both. -/
def prepare (options : CompileOptions) (found : Surroundings) :
    Except String (Pipeline × Compiler Float) := do
  let pipeline ← readPipeline found.files options.pipeline
  let config ← withSettings pipeline (EngineConfig.ofEnvironment found.setting?)
  let config ← withOptions options config
  checkConfig config
  let specs ← specifications found.files options.spec
  let compiler := Compiler.create .builtin (.create specs.source config.estimator) config
  pure (pipeline, ← options.calibrate.foldlM (calibrateFrom found.files) compiler)

def compile (options : CompileOptions) (found : Surroundings) :
    Except String (Pipeline × Compiler Float × ExecutionPlan Float) := do
  let (pipeline, compiler) ← prepare options found
  let compiler := compiler.next
  let plan ← (compiler.compile pipeline.plan pipeline.hints).mapError CompileError.message
  pure (pipeline, compiler, plan)

def checkPipeline (pipeline : String) (found : Surroundings) : Except String (List String) := do
  let pipeline ← readPipeline found.files pipeline
  checkConfig (← withSettings pipeline .standard)
  pure ["✓ Pipeline is valid"]

def explainPlan (options : CompileOptions) (asJson : Bool) (found : Surroundings) :
    Except String (List String) := do
  let (pipeline, compiler, plan) ← compile options found
  if asJson then pure [plan.shape.writeWide 0]
  else
    let candidates := compiler.candidates pipeline.plan pipeline.hints plan.epoch
    let (_, candidates) ← candidates.mapError CompileError.message
    pure (["Pipeline Execution Plan", "=======================", "",
      "Operators: " ++ toString pipeline.plan.size,
      "Candidates considered: " ++ toString candidates.length,
      "Plan fingerprint: " ++ plan.fingerprint.short, ""] ++ plan.lines)

def resultLines (printResults : Bool) (results : Table (List Record)) : List String :=
  results.rows.flatMap fun (name, rows) =>
    ("  memory://" ++ name ++ ": " ++ toString rows.length ++ " record(s)")
      :: if printResults then rows.map fun row => row.toJson.write else []

def runLines (report : LineageReport Float) (state : RunState Float) (printResults : Bool) :
    List String :=
  ["✓ Pipeline executed successfully",
    "  Duration: " ++ toString (report.finishedMs - report.startedMs) ++ "ms",
    "  Run id: " ++ report.runId,
    "  Plan fingerprint: " ++ report.fingerprint,
    "  Lineage nodes: " ++ toString state.lineage.size,
    "  Channels created: " ++ toString state.created.length]
    ++ resultLines printResults state.workspace.results

/-- Keeps a lineage where a directory is set for it. -/
def keep (report : LineageReport Float) (directory : Option String) (files : Files) :
    Except RunError Files :=
  match directory with
  | some directory => report.persist directory files
  | none => .ok files

/-- Runs a plan, and keeps its lineage; the files are known also if that fails. -/
def runPlan (plan : ExecutionPlan Float) (config : EngineConfig Float) (printResults : Bool)
    (found : Surroundings) : Except RunError (List String) × Files :=
  let (ended, state) := plan.run ⟨config.parallelism, fun _ _ => 0⟩ found.files
  let files := state.workspace.files
  match ended with
  | .error error => (.error error, files)
  | .ok () =>
    let report := state.lineage.report found.runId plan.fingerprint.hex found.startedMs
      found.finishedMs
    match keep report config.lineageDir files with
    | .error error => (.error error, files)
    | .ok files => (.ok (runLines report state printResults), files)

/-- The result of a command that printed something or failed. -/
def resultOf (failure : String) (files : Files) : Except String (List String) → CommandResult
  | .ok output => ⟨0, output, [], files⟩
  | .error message => ⟨1, [], [failure ++ message], files⟩

def perform (command : Command) (found : Surroundings) : CommandResult :=
  match command with
  | .validate pipeline => resultOf "Validation failed: " found.files (checkPipeline pipeline found)
  | .explain options asJson => resultOf "Error: " found.files (explainPlan options asJson found)
  | .run options lineageOut printResults =>
    match compile options found with
    | .error message => resultOf "Error: " found.files (.error message)
    | .ok (_, compiler, plan) =>
      let config := compiler.config
      let config := { config with lineageDir := lineageOut.or config.lineageDir }
      let (ended, files) := runPlan plan config printResults found
      resultOf "Error: " files (ended.mapError (RunError.message plan.lines))

def usage : List String :=
  ["Commands:", "  validate --pipeline FILE", "  explain --pipeline FILE [--json] [OPTIONS]",
    "  run --pipeline FILE [--lineage-out DIR] [--print-results] [OPTIONS]", "Options:",
    "  --spec FILE", "  --platform-priority LIST", "  --exhaustive-limit COUNT",
    "  --parallelism COUNT", "  --calibrate FILE"]

def performAll (arguments : List String) (found : Surroundings) : CommandResult :=
  match Command.read arguments with
  | .ok command => command.perform found
  | .error .help => ⟨0, usage, [], found.files⟩
  | .error .wrong => ⟨2, [], usage, found.files⟩

/-! ## Files that are needed -/

def firstFiles : Command → List String
  | .validate pipeline => [pipeline]
  | .explain options _ | .run options _ _ =>
    [options.pipeline] ++ options.spec.toList ++ options.calibrate

/-- The files that an operator reads or writes. -/
def operatorFiles (operator : Operator) : List String :=
  match operator.action with
  | .textSource url => if SourceAddress.isRemote url then [] else [SourceAddress.path url]
  | .sink text =>
    match Destination.read text with
    | .ok (.file path) => [path]
    | _ => []
  | _ => []

/-- The files and directories that a run reads or writes. -/
def laterFiles (command : Command) (found : Surroundings) : List String :=
  match command with
  | .run options lineageOut _ =>
    match prepare options found with
    | .error _ => []
    | .ok (pipeline, compiler) =>
      let directory := lineageOut.or compiler.config.lineageDir
      pipeline.plan.operators.flatMap operatorFiles
        ++ directory.toList.map fun directory => Files.join directory "lineage"
  | _ => []

end Command

end CrossPlan
