import CrossPlan.Decimal.Layout
import CrossPlan.Decimal.Numeral
import CrossPlan.Json.Shape
import CrossPlan.Load
import CrossPlan.Platform

/-!
# Configuration

The settings of the optimizer, the estimator and the engine, where they come from, and when they can
be used.
-/

set_option autoImplicit false

namespace CrossPlan

structure OptimizerConfig (α : Type) where
  /-- up to this many candidates the search is exhaustive -/
  exhaustiveLimit : Nat
  /-- the platform named first wins a tie -/
  priority : List Platform
  weights : CostWeights α

structure EstimatorConfig (α : Type) where
  /-- rows assumed for an input of unknown size -/
  defaultCardinality : Nat
  /-- bytes assumed for a row of unknown size -/
  defaultRecordBytes : Nat
  /-- samples that the declared model counts for -/
  priorWeight : α
  declaredConfidence : α
  minConfidence : α
  /-- relative half width of an estimate without confidence -/
  spread : α

structure EngineConfig (α : Type) where
  optimizer : OptimizerConfig α
  estimator : EstimatorConfig α
  parallelism : Nat
  lineageDir : Option String

inductive ConfigError (α : Type) where
  | noParallelism
  | priorWeight
  | spread (value : α)
  | confidences
  | unknownPlatform (name : String)

def ConfigError.reason : ConfigError Float → String
  | .noParallelism => "distributed_parallelism must be > 0"
  | .priorWeight => "estimator.prior_weight must be > 0"
  | .spread value => "estimator.spread must be within [0, 1], got " ++ Decimal.plain value
  | .confidences => "confidences must satisfy 0 <= min_confidence <= declared_confidence <= 1"
  | .unknownPlatform name => "unknown platform '" ++ name ++ "'"

def ConfigError.message (error : ConfigError Float) : String :=
  "invalid configuration: " ++ error.reason

/-- The place of a platform in the order of preference; one that is not named comes after all. -/
def OptimizerConfig.rank {α : Type} (config : OptimizerConfig α) (platform : Platform) : Nat :=
  config.priority.idxOf platform

section

variable {α : Type} [Quantity α]

open Quantity

def OptimizerConfig.standard : OptimizerConfig α :=
  ⟨64, Platform.all, CostWeights.standard⟩

def EstimatorConfig.standard : EstimatorConfig α :=
  ⟨1000, 64, ofNat 8, ofDecimal 5 1, ofDecimal 5 2, one⟩

def EngineConfig.standard : EngineConfig α :=
  ⟨OptimizerConfig.standard, EstimatorConfig.standard, 4, none⟩

/-- Whether a value lies between zero and one. -/
def inUnit (value : α) : Bool := le zero value && le value one

def EngineConfig.validate (config : EngineConfig α) : Except (ConfigError α) Unit :=
  let e := config.estimator
  if config.parallelism = 0 then .error .noParallelism
  else if le e.priorWeight zero then .error .priorWeight
  else if !inUnit e.spread then .error (.spread e.spread)
  else if !inUnit e.minConfidence || !inUnit e.declaredConfidence
      || lt e.declaredConfidence e.minConfidence then .error .confidences
  else .ok ()

end

def parsePriority {α : Type} (text : String) : Except (ConfigError α) (List Platform) :=
  (Platform.parseList text).mapError .unknownPlatform

namespace EngineConfig

def settingNames : List String :=
  ["POLYPLAN_EXHAUSTIVE_LIMIT", "POLYPLAN_PLATFORM_PRIORITY", "POLYPLAN_UNCERTAINTY_PENALTY",
    "POLYPLAN_DEFAULT_CARDINALITY", "POLYPLAN_PRIOR_WEIGHT", "POLYPLAN_PARALLELISM",
    "POLYPLAN_LINEAGE_DIR"]

/-- The standard settings, each replaced by the environment variable that names it.  A variable
whose text cannot be read is passed over. -/
def ofEnvironment (value? : String → Option String) : EngineConfig Float :=
  let standard : EngineConfig Float := .standard
  let read {β : Type} (name : String) (parse : String → Option β) (otherwise : β) : β :=
    ((value? ("POLYPLAN_" ++ name)).bind parse).getD otherwise
  let weights := standard.optimizer.weights
  let estimator := standard.estimator
  { optimizer :=
      { exhaustiveLimit := read "EXHAUSTIVE_LIMIT" Numeral.word? standard.optimizer.exhaustiveLimit
        priority := read "PLATFORM_PRIORITY" (fun s => (Platform.parseList s).toOption)
          standard.optimizer.priority
        weights := { weights with
          uncertaintyPenalty := read "UNCERTAINTY_PENALTY" Numeral.double?
            weights.uncertaintyPenalty } }
    estimator := { estimator with
      defaultCardinality := read "DEFAULT_CARDINALITY" Numeral.word? estimator.defaultCardinality
      priorWeight := read "PRIOR_WEIGHT" Numeral.double? estimator.priorWeight }
    parallelism := read "PARALLELISM" Numeral.word? standard.parallelism
    lineageDir := value? "POLYPLAN_LINEAGE_DIR" }

end EngineConfig

namespace CostWeights

def ofJson? (value : Json) : Option (CostWeights Float) := do
  let standard : CostWeights Float := .standard
  match ← value.shape? ["time_ms", "memory_bytes", "network_bytes", "uncertainty_penalty"] with
  | [time, memory, network, penalty] =>
    pure ⟨← time.orElse standard.timeMs Json.double?,
      ← memory.orElse standard.memoryBytes Json.double?,
      ← network.orElse standard.networkBytes Json.double?,
      ← penalty.orElse standard.uncertaintyPenalty Json.double?⟩
  | _ => none

end CostWeights

def OptimizerConfig.ofJson? (value : Json) : Option (OptimizerConfig Float) := do
  let standard : OptimizerConfig Float := .standard
  match ← value.shape? ["exhaustive_candidate_limit", "platform_priority", "cost_weights"] with
  | [limit, priority, weights] =>
    pure ⟨← limit.orElse standard.exhaustiveLimit Json.word?,
      ← priority.orElse standard.priority (Json.listOf? (Json.choice? Platform.ofName?)),
      ← weights.orElse standard.weights CostWeights.ofJson?⟩
  | _ => none

def EstimatorConfig.ofJson? (value : Json) : Option (EstimatorConfig Float) := do
  let standard : EstimatorConfig Float := .standard
  match ← value.shape? ["default_cardinality", "default_record_bytes", "prior_weight",
    "declared_confidence", "min_confidence", "spread"] with
  | [cardinality, bytes, prior, declared, least, spread] =>
    pure ⟨← cardinality.orElse standard.defaultCardinality Json.word?,
      ← bytes.orElse standard.defaultRecordBytes Json.word?,
      ← prior.orElse standard.priorWeight Json.double?,
      ← declared.orElse standard.declaredConfidence Json.double?,
      ← least.orElse standard.minConfidence Json.double?,
      ← spread.orElse standard.spread Json.double?⟩
  | _ => none

/-- Settings that are not named keep their standard values. -/
def EngineConfig.ofJson? (value : Json) : Option (EngineConfig Float) := do
  let standard : EngineConfig Float := .standard
  match ← value.shape? ["optimizer", "estimator", "distributed_parallelism", "lineage_dir"] with
  | [optimizer, estimator, parallelism, dir] =>
    pure ⟨← optimizer.orElse standard.optimizer OptimizerConfig.ofJson?,
      ← estimator.orElse standard.estimator EstimatorConfig.ofJson?,
      ← parallelism.orElse standard.parallelism Json.word?,
      ← dir.optionalOrElse standard.lineageDir Json.text?⟩
  | _ => none

end CrossPlan
