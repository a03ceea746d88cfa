import CrossPlan.Estimation.Cardinality
import CrossPlan.Estimation.Specification
import CrossPlan.Lineage.Basic

/-!
# Estimating loads

An estimate is the declared model at the expected rows, scaled by what earlier runs took in relation
to it.  It is an interval, the wider the less is known; runs that were observed narrow it.
-/

set_option autoImplicit false

namespace CrossPlan

/-- The observed times of one key, each in relation to the declared time. -/
structure Observations (α : Type) where
  samples : Nat
  ratioSum : α

variable {α : Type} [Quantity α]

open Quantity

def Observations.none : Observations α := ⟨0, zero⟩

def Observations.meanRatio (seen : Observations α) : α :=
  if seen.samples = 0 then one else seen.ratioSum / ofNat seen.samples

def Observations.add (seen : Observations α) (ratio : α) : Observations α :=
  ⟨seen.samples + 1, seen.ratioSum + ratio⟩

structure Estimator (α : Type) where
  source : SpecSource α
  config : EstimatorConfig α
  observed : Table (Observations α)

namespace Estimator

def create (source : SpecSource α) (config : EstimatorConfig α) : Estimator α :=
  ⟨source, config, .empty⟩

omit [Quantity α] in
def samples (estimator : Estimator α) (key : String) : Nat :=
  ((estimator.observed.get? key).map (·.samples)).getD 0

def observations (estimator : Estimator α) (key : String) : Observations α :=
  (estimator.observed.get? key).getD .none

omit [Quantity α] in
/-- The declared model of a key; a source that fails declares nothing. -/
def declared? (estimator : Estimator α) (key : String) : Option (CostModel α) :=
  match estimator.source key with
  | .ok model => model
  | .error _ => none

/-- The model taken for a key that nobody declared. -/
def fallback : CostModel α := .ofTimes zero (ofDecimal 1 3)

def model (estimator : Estimator α) (key : String) : CostModel α :=
  (estimator.declared? key).getD fallback

def rowsOf (config : EstimatorConfig α) (input : Statistics) : α :=
  ofNat (input.cardinality.getD config.defaultCardinality)

def bytesOf (config : EstimatorConfig α) (input : Statistics) : α :=
  rowsOf config input * ofNat (input.recordBytes.getD config.defaultRecordBytes)

/-- How much the observed samples count, from nothing at none towards one. -/
def weight (estimator : Estimator α) (key : String) : α :=
  let samples : α := ofNat (estimator.samples key)
  samples / (samples + estimator.config.priorWeight)

/-- The factor by which observed times differ from declared ones. -/
def scale (estimator : Estimator α) (key : String) : α :=
  let w := estimator.weight key
  (one - w) + w * (estimator.observations key).meanRatio

/-- The trust in an estimate: low where a model or a row count is missing, higher with samples. -/
def confidence (estimator : Estimator α) (key : String) (inputs : List Statistics) : α :=
  let config := estimator.config
  let known := (estimator.declared? key).isSome && inputs.all fun input => input.cardinality.isSome
  let base := if known then config.declaredConfidence else config.minConfidence
  clamp zero one (base + (one - base) * estimator.weight key)

def estimate (estimator : Estimator α) (key : String) (inputs : List Statistics) :
    LoadProfile α :=
  let config := estimator.config
  let rows := sum (inputs.map (rowsOf config))
  let bytes := sum (inputs.map (bytesOf config))
  let model := estimator.model key
  let confidence := estimator.confidence key inputs
  let relative := config.spread * (one - confidence)
  let spread (value : α) : Interval α := .around value (value * relative)
  { time := spread (model.timeMs rows bytes * estimator.scale key)
    memory := spread (model.memoryBytes rows)
    network := spread (model.networkBytes bytes)
    confidence }

/-- The rows and bytes at which a sample is compared with the declared model: none for the prepare
phase, what came in, or what went out where nothing came in. -/
def sizing (config : EstimatorConfig α) (phase : Phase) (realized : RealizedCost α) : α × α :=
  if phase = .prepare then (zero, zero)
  else if realized.inputRows = 0 then (ofNat realized.outputRows, ofNat realized.outputBytes)
  else
    let rows : α := ofNat realized.inputRows
    (rows, rows * ofNat config.defaultRecordBytes)

/-- Declared times up to this one are too small to compare with. -/
def leastDeclared : α := one / ofNat Decimal.fractions

/-- The key of a node and its time in relation to the declared one, held within a thousandth and a
thousand; nothing for a node without key, cost or declared time. -/
def sample? (estimator : Estimator α) (node : LineageNode α) : Option (String × α) := do
  let key ← node.costKey
  let realized ← node.realized
  let (rows, bytes) := sizing estimator.config node.phase realized
  let declared := (estimator.model key).timeMs rows bytes
  if le declared leastDeclared then none
  else pure (key, clamp (ofDecimal 1 3) (ofNat 1000) (realized.elapsedMs / declared))

def observe (estimator : Estimator α) (sample : String × α) : Estimator α :=
  { estimator with
    observed := estimator.observed.insert sample.1
      ((estimator.observations sample.1).add sample.2) }

/-- Takes the samples of a run in, and answers how many there were. -/
def calibrate (estimator : Estimator α) (nodes : List (LineageNode α)) : Estimator α × Nat :=
  let samples := nodes.filterMap estimator.sample?
  (samples.foldl observe estimator, samples.length)

end Estimator

end CrossPlan
