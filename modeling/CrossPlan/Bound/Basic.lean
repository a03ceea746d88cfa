import CrossPlan.Channel.Basic
import CrossPlan.Lineage.Basic
import CrossPlan.Storage.Destination
import CrossPlan.Storage.Files

/-!
# Bound operators

A bound operator runs on one platform.  It says which forms of data its slots take and give, and it
turns filled input channels into filled output channels.  What it reads and writes beside its
channels are the results kept in memory and the files; it may also read texts of other machines.
-/

set_option autoImplicit false

namespace CrossPlan

structure Workspace where
  results : Table (List Record)
  files : Files
  /-- the text at an address on another machine -/
  remote : (url : String) → Except FileFault String

namespace Workspace

/-- A workspace without results, in which no other machine answers. -/
def ofFiles (files : Files) : Workspace := ⟨.empty, files, fun _ => .error .other⟩

def empty : Workspace := ofFiles .empty

def readText (workspace : Workspace) (url : String) : Except FileFault String :=
  if SourceAddress.isRemote url then workspace.remote url
  else workspace.files.readText (SourceAddress.path url)

def append (workspace : Workspace) (name : String) (rows : List Record) : Workspace :=
  let held := (workspace.results.get? name).getD []
  { workspace with results := workspace.results.insert name (held ++ rows) }

end Workspace

inductive EvaluationError where
  | dataAccess (location : String) (fault : FileFault)
  | invalidParameters (reason : String)
  | input (error : ChannelError)
  deriving DecidableEq, Repr

def EvaluationError.message : EvaluationError → String
  | .dataAccess location fault => "cannot access '" ++ location ++ "': " ++ fault.message
  | .invalidParameters reason => "invalid operator parameters: " ++ reason
  | .input error => "bad input: " ++ error.message

structure TaskContext (α : Type) where
  task : Nat
  name : String
  prepareKey : String
  mainKey : String
  prepareEstimate : Option (LoadProfile α)
  mainEstimate : Option (LoadProfile α)
  /-- how long a phase took -/
  elapsedMs : Phase → α
  /-- parts that rows are divided into -/
  parallelism : Nat

/-- The lineage nodes and the channels that an evaluation ends with. -/
structure Evaluation (α : Type) where
  prepare : LineageNode α
  main : LineageNode α
  produced : List Channel

namespace TaskContext

variable {α : Type}

/-- The evaluation that read a number of rows and produced the given channels. -/
def evaluation (context : TaskContext α) (rowsRead : Nat) (produced : List Channel) :
    Evaluation α :=
  let prepare : LineageNode α := .bare context.task context.name .prepare
  let main : LineageNode α := .bare context.task context.name .main
  { prepare := { prepare with
      costKey := some context.prepareKey
      estimate := context.prepareEstimate
      realized := some ⟨context.elapsedMs .prepare, rowsRead, 0, 0⟩ }
    main := { main with
      costKey := some context.mainKey
      estimate := context.mainEstimate
      realized := some ⟨context.elapsedMs .main, rowsRead,
        Count.total (produced.map Channel.cardinality),
        Count.total (produced.map Channel.bytes)⟩ }
    produced }

end TaskContext

/-- What an evaluation does to the workspace, and what comes out of it. -/
abbrev Evaluator (α : Type) :=
  TaskContext α → (inputs outputs : List Channel) → Workspace →
    Except EvaluationError (Evaluation α × Workspace)

structure BoundOperator (α : Type) where
  name : String
  /-- the middle part of the keys of its costs -/
  kind : String
  platform : Platform
  /-- the round of compilation that it was made in -/
  epoch : Nat
  inputs : Nat
  outputs : Nat
  inputForms : (slot : Nat) → List Form
  outputForms : (slot : Nat) → List Form
  evaluate : Evaluator α

namespace BoundOperator

variable {α : Type}

def prepareKey (operator : BoundOperator α) : String :=
  operator.platform.costKey operator.kind "prepare"

def mainKey (operator : BoundOperator α) : String :=
  operator.platform.costKey operator.kind "main"

end BoundOperator

end CrossPlan
