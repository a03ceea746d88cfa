import CrossPlan.Rule.Builtin
import CrossPlan.Selection.Assembly

/-!
# Compiling plans

A plan is checked, the sizes of its outputs are estimated, candidates are collected, a selection of
them is found and turned into an execution plan.  Each compilation is a round of its own.
-/

set_option autoImplicit false

namespace CrossPlan

inductive CompileError where
  | plan (error : PlanError)
  | mapping (error : MappingError)
  | optimize (error : OptimizeError)
  deriving DecidableEq, Repr

def CompileError.message : CompileError → String
  | .plan error => "invalid plan: " ++ error.message
  | .mapping error => "mapping failed: " ++ error.message
  | .optimize error => "optimization failed: " ++ error.message

structure Compiler (α : Type) where
  registry : RuleRegistry α
  estimator : Estimator α
  config : EngineConfig α
  /-- the last round that was begun -/
  epoch : Nat

/-- Solves a problem and builds the plan of its solution. -/
def Problem.optimize {α : Type} [Quantity α] (problem : Problem α) (epoch : Nat) :
    Except OptimizeError (ExecutionPlan α) := do
  problem.build (← problem.solve) epoch

namespace Compiler

variable {α : Type} [Quantity α]

omit [Quantity α] in
def create (registry : RuleRegistry α) (estimator : Estimator α) (config : EngineConfig α) :
    Compiler α :=
  ⟨registry, estimator, config, 0⟩

omit [Quantity α] in
def next (compiler : Compiler α) : Compiler α := { compiler with epoch := compiler.epoch + 1 }

/-- What is known of the outputs of a valid plan, and its candidates in a round. -/
def candidates (compiler : Compiler α) (plan : Plan) (hints : Hints) (epoch : Nat) :
    Except CompileError (PlanStatistics × List (Candidate α)) := do
  plan.validate.mapError .plan
  let known ← (plan.statistics hints compiler.config.estimator).mapError .plan
  let weights := compiler.config.optimizer.weights
  let candidates := compiler.registry.candidates compiler.estimator weights plan known epoch
  pure (known, ← candidates.mapError .mapping)

def problem (compiler : Compiler α) (plan : Plan) (known : PlanStatistics)
    (candidates : List (Candidate α)) : Except OptimizeError (Problem α) :=
  Problem.create plan candidates compiler.estimator known compiler.config.optimizer

def compile (compiler : Compiler α) (plan : Plan) (hints : Hints) :
    Except CompileError (ExecutionPlan α) := do
  let (known, candidates) ← compiler.candidates plan hints compiler.epoch
  let problem ← (compiler.problem plan known candidates).mapError .optimize
  (problem.optimize compiler.epoch).mapError .optimize

/-- Takes in the samples of a run, and answers how many there were. -/
def calibrate (compiler : Compiler α) (nodes : List (LineageNode α)) : Compiler α × Nat :=
  let (estimator, absorbed) := compiler.estimator.calibrate nodes
  ({ compiler with estimator }, absorbed)

end Compiler

end CrossPlan
