import CrossPlan.Estimation.Estimator
import CrossPlan.Proofs.Sequence

/-!
# What loads are put together from

A load is put together from the coefficients of a model and the counts of rows and bytes by a few
operations, whatever quantities are computed with.  What holds of counts and of the coefficients
that a model may have, and is kept by these operations, holds of all that a valid model says.
-/

set_option autoImplicit false

namespace CrossPlan

variable {α : Type} [Quantity α]

open Quantity

/-- A property of counts and of coefficients that is kept when loads are put together. -/
structure Quantity.Amounts (amount : α → Prop) : Prop where
  count : ∀ n, amount (ofNat n)
  coefficient : ∀ a, notNegative a = true → amount a
  add : ∀ a b, amount a → amount b → amount (a + b)
  mul : ∀ a b, amount a → amount b → amount (a * b)
  share : ∀ a n, amount a → n ≠ 0 → amount (a / ofNat n)
  larger : ∀ a, amount (larger a zero)

theorem EngineConfig.validate_ok {config : EngineConfig α} (accepted : config.validate = .ok ()) :
    ¬ le config.estimator.priorWeight zero = true ∧ inUnit config.estimator.spread = true ∧
      inUnit config.estimator.minConfidence = true ∧
        inUnit config.estimator.declaredConfidence = true := by
  simp only [validate] at accepted
  split_ifs at accepted with _ weight spread confidences
  simp only [Bool.or_eq_true, not_or, Bool.not_eq_true', Bool.not_eq_false] at spread confidences
  exact ⟨weight, spread, confidences.1.1, confidences.1.2⟩

namespace Estimator

def Declares (source : SpecSource α) : Prop :=
  ∀ key model, source key = .ok (some model) → model.validate = .ok ()

def rows (config : EstimatorConfig α) (inputs : List Statistics) : α :=
  sum (inputs.map (rowsOf config))

def bytes (config : EstimatorConfig α) (inputs : List Statistics) : α :=
  sum (inputs.map (bytesOf config))

def declaredTime (estimator : Estimator α) (key : String) (inputs : List Statistics) : α :=
  (estimator.model key).timeMs (rows estimator.config inputs) (bytes estimator.config inputs)

def declaredMemory (estimator : Estimator α) (key : String) (inputs : List Statistics) : α :=
  (estimator.model key).memoryBytes (rows estimator.config inputs)

def declaredNetwork (estimator : Estimator α) (key : String) (inputs : List Statistics) : α :=
  (estimator.model key).networkBytes (bytes estimator.config inputs)

def relative (estimator : Estimator α) (key : String) (inputs : List Statistics) : α :=
  estimator.config.spread * (one - estimator.confidence key inputs)

def spreadOut (estimator : Estimator α) (key : String) (inputs : List Statistics) (value : α) :
    Interval α :=
  .around value (value * estimator.relative key inputs)

/-- The confidence without samples, which is lower where a model or a row count is missing. -/
def baseConfidence (estimator : Estimator α) (key : String) (inputs : List Statistics) : α :=
  if (estimator.declared? key).isSome && inputs.all fun input => input.cardinality.isSome then
    estimator.config.declaredConfidence
  else estimator.config.minConfidence

theorem confidence_eq_clamp (estimator : Estimator α) (key : String) (inputs : List Statistics) :
    estimator.confidence key inputs = clamp zero one (estimator.baseConfidence key inputs +
      (one - estimator.baseConfidence key inputs) * estimator.weight key) := rfl

theorem estimate_eq (estimator : Estimator α) (key : String) (inputs : List Statistics) :
    estimator.estimate key inputs =
      { time := estimator.spreadOut key inputs
          (estimator.declaredTime key inputs * estimator.scale key)
        memory := estimator.spreadOut key inputs (estimator.declaredMemory key inputs)
        network := estimator.spreadOut key inputs (estimator.declaredNetwork key inputs)
        confidence := estimator.confidence key inputs } := rfl

theorem validate_model {estimator : Estimator α} (declares : Declares estimator.source)
    (standard : (fallback : CostModel α).validate = .ok ()) (key : String) :
    (estimator.model key).validate = .ok () := by
  rw [model, declared?]
  split
  · next model answer =>
    cases model with
    | none => exact standard
    | some model => exact declares key model answer
  · exact standard

end Estimator

namespace Quantity.Amounts

variable {amount : α → Prop}

theorem sum (amounts : Amounts amount) {terms : List α} (each : ∀ term ∈ terms, amount term) :
    amount (sum terms) :=
  Sequence.foldl_keeps amount
    (fun term listed total whole => amounts.add total term whole (each term listed))
    (amounts.count 0)

theorem interpolate (amounts : Amounts amount) {points : List (Breakpoint α)}
    (heights : ∀ point ∈ points, amount point.ms) (rows : α) :
    amount (interpolate points rows) := by
  unfold CrossPlan.interpolate
  split
  · next first _ found _ =>
    have here : amount first.ms := heights first (List.mem_of_head? found)
    split
    · exact here
    · split
      · exact here
      · exact amounts.larger _
  · exact amounts.count 0

theorem of_validate (amounts : Amounts amount) {model : CostModel α}
    (valid : model.validate = .ok ()) {rows bytes : α} (known_rows : amount rows)
    (known_bytes : amount bytes) :
    amount (model.timeMs rows bytes) ∧ amount (model.memoryBytes rows) ∧
      amount (model.networkBytes bytes) := by
  cases model with
  | linear fixed perRow perKb memory network =>
    simp only [CostModel.validate, List.all_cons, List.all_nil, Bool.and_true, ite_eq_left_iff,
      reduceCtorEq, imp_false, not_not, Bool.and_eq_true] at valid
    obtain ⟨fixed_ok, perRow_ok, perKb_ok, memory_ok, network_ok⟩ := valid
    have byRows := amounts.mul _ _ (amounts.coefficient _ perRow_ok) known_rows
    have byBytes := amounts.share _ 1024
      (amounts.mul _ _ (amounts.coefficient _ perKb_ok) known_bytes) (by decide)
    exact ⟨amounts.add _ _ (amounts.add _ _ (amounts.coefficient _ fixed_ok) byRows) byBytes,
      amounts.mul _ _ (amounts.coefficient _ memory_ok) known_rows,
      amounts.mul _ _ (amounts.coefficient _ network_ok) known_bytes⟩
  | piecewise points memory network =>
    simp only [CostModel.validate, Bool.and_eq_true, List.all_eq_true] at valid
    split_ifs at valid with _ _ good
    obtain ⟨⟨heights_ok, memory_ok⟩, network_ok⟩ := good
    have heights : ∀ point ∈ points, amount point.ms :=
      fun point listed => amounts.coefficient _ (heights_ok point listed)
    exact ⟨amounts.interpolate heights rows,
      amounts.mul _ _ (amounts.coefficient _ memory_ok) known_rows,
      amounts.mul _ _ (amounts.coefficient _ network_ok) known_bytes⟩

theorem declared (amounts : Amounts amount) {estimator : Estimator α} {key : String}
    (valid : (estimator.model key).validate = .ok ()) (inputs : List Statistics) :
    amount (estimator.declaredTime key inputs) ∧ amount (estimator.declaredMemory key inputs) ∧
      amount (estimator.declaredNetwork key inputs) := by
  have rows : amount (Estimator.rows estimator.config inputs) :=
    amounts.sum (List.forall_mem_map.mpr fun _ _ => amounts.count _)
  have bytes : amount (Estimator.bytes estimator.config inputs) :=
    amounts.sum (List.forall_mem_map.mpr fun _ _ =>
      amounts.mul _ _ (amounts.count _) (amounts.count _))
  exact amounts.of_validate valid rows bytes

theorem sizing (amounts : Amounts amount) (config : EstimatorConfig α) (phase : Phase)
    (realized : RealizedCost α) :
    amount (Estimator.sizing config phase realized).1 ∧
      amount (Estimator.sizing config phase realized).2 := by
  unfold Estimator.sizing
  split_ifs
  · exact ⟨amounts.count 0, amounts.count 0⟩
  · exact ⟨amounts.count _, amounts.count _⟩
  · exact ⟨amounts.count _, amounts.mul _ _ (amounts.count _) (amounts.count _)⟩

end Quantity.Amounts

end CrossPlan
