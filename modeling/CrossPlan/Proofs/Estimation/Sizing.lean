import CrossPlan.Proofs.Estimation.Narrowing
import Mathlib.Tactic.FieldSimp

/-!
# The size at which a run is compared

An estimate is made for the rows and the bytes of its inputs.  A run is compared with the declared
model at the rows that came in, each of them of the standard size.  So a run that took the expected
time leaves the expectation where it was when the model does not look at bytes or the rows are of
the standard size; else it moves the expectation, although nothing unexpected was seen.
-/

set_option autoImplicit false

namespace CrossPlan

open Quantity

/-! ## What the bytes add to a time -/

def CostModel.perKbMs {α : Type} [Quantity α] : CostModel α → α
  | .linear _ _ perKb _ _ => perKb
  | .piecewise _ _ _ => zero

theorem CostModel.timeMs_eq_iff {model : CostModel Rat} {rows bytes other : Rat} :
    model.timeMs rows bytes = model.timeMs rows other ↔ model.perKbMs = 0 ∨ bytes = other := by
  cases model with
  | linear fixed perRow perKb memory network =>
    change fixed + perRow * rows + perKb * bytes / 1024 =
      fixed + perRow * rows + perKb * other / 1024 ↔ perKb = 0 ∨ bytes = other
    rw [add_right_inj, div_left_inj' (by norm_num), mul_eq_mul_left_iff, or_comm]
  | piecewise points memory network => exact iff_of_true rfl (.inl rfl)

namespace Estimator

def measured (sizes : List (Nat × Nat)) : List Statistics :=
  sizes.map fun size => ⟨some size.1, some size.2⟩

def totalRows (sizes : List (Nat × Nat)) : Nat := Count.total (sizes.map (·.1))

def totalBytes (sizes : List (Nat × Nat)) : Nat :=
  Count.total (sizes.map fun size => size.1 * size.2)

theorem sum_map_cast (count : Nat × Nat → Nat) (sizes : List (Nat × Nat)) :
    sum (sizes.map fun size => (count size : Rat)) = (Count.total (sizes.map count) : Nat) := by
  rw [sum_rat]
  induction sizes with
  | nil => rfl
  | cons size rest ih =>
    rw [List.map_cons, List.sum_cons, ih, List.map_cons]
    exact (Nat.cast_add _ _).symm

theorem rows_measured (config : EstimatorConfig Rat) (sizes : List (Nat × Nat)) :
    rows config (measured sizes) = totalRows sizes := by
  rw [rows, measured, List.map_map]
  exact sum_map_cast (·.1) sizes

theorem bytes_measured (config : EstimatorConfig Rat) (sizes : List (Nat × Nat)) :
    bytes config (measured sizes) = totalBytes sizes := by
  rw [bytes, measured, List.map_map, totalBytes, ← sum_map_cast]
  refine congrArg sum (List.map_congr_left fun size _ => ?_)
  exact (Nat.cast_mul _ _).symm

/-- A main node of a key that took just the time expected of inputs, for as many rows. -/
structure Meets (estimator : Estimator Rat) (key : String) (sizes : List (Nat × Nat))
    (node : LineageNode Rat) : Prop where
  main : node.phase = .main
  named : node.costKey = some key
  spent : ∃ realized, node.realized = some realized ∧ realized.inputRows = totalRows sizes ∧
    realized.elapsedMs = (estimator.estimate key (measured sizes)).time.expected

variable {estimator : Estimator Rat} {key : String} {sizes : List (Nat × Nat)}
  {node : LineageNode Rat}

/-- The declared time with which a run over some rows is compared. -/
def comparedTime (estimator : Estimator Rat) (key : String) (sizes : List (Nat × Nat)) : Rat :=
  (estimator.model key).timeMs (totalRows sizes)
    (totalRows sizes * estimator.config.defaultRecordBytes : Nat)

theorem expected_estimate (checked : estimator.config.Checked) {inputs : List Statistics}
    (amount : 0 ≤ estimator.declaredTime key inputs * estimator.scale key) :
    (estimator.estimate key inputs).time.expected =
      estimator.declaredTime key inputs * estimator.scale key := by
  rw [estimate_eq]
  exact (centered_spreadOut checked amount).middle

theorem scale_unseen (unseen : estimator.samples key = 0) : estimator.scale key = 1 := by
  have weightless : estimator.weight key = 0 := by
    rw [weight_eq, unseen, Nat.cast_zero, zero_div]
  rw [scale, weightless]
  change 1 - (0 : Rat) + 0 * _ = 1
  rw [sub_zero, zero_mul, add_zero]

theorem sample?_meets (meets : estimator.Meets key sizes node) (some_rows : 0 < totalRows sizes) :
    estimator.sample? node =
      if estimator.comparedTime key sizes ≤ leastDeclared then none
      else some (key, clamp (ofDecimal 1 3) (ofNat 1000)
        ((estimator.estimate key (measured sizes)).time.expected /
          estimator.comparedTime key sizes)) := by
  obtain ⟨realized, spent, rows, time⟩ := meets.spent
  have sized : sizing estimator.config node.phase realized = ((totalRows sizes : Rat),
      ((totalRows sizes * estimator.config.defaultRecordBytes : Nat) : Rat)) := by
    rw [sizing, meets.main, if_neg (by decide), rows, if_neg some_rows.ne']
    exact congrArg (Prod.mk _) (Nat.cast_mul _ _).symm
  simp only [sample?, meets.named, spent, Option.bind_eq_bind, Option.bind_some, sized, time,
    le_rat]
  rfl

/-- A sample moves a value that was not seen before unless the value is zero or the ratio is one. -/
theorem blended_eq_iff {value prior ratio : Rat} (positive : 0 < prior) :
    value * (1 - 1 / (1 + prior) + 1 / (1 + prior) * ratio) = value ↔ value = 0 ∨ ratio = 1 := by
  have whole : 1 + prior ≠ 0 := (add_pos one_pos positive).ne'
  have moved : value * (1 - 1 / (1 + prior) + 1 / (1 + prior) * ratio) - value =
      value * (ratio - 1) / (1 + prior) := by
    field_simp
    ring
  rw [← sub_eq_zero, moved, div_eq_zero_iff, or_iff_left whole, mul_eq_zero, sub_eq_zero]

theorem clamp_eq_one_iff {time compared : Rat} (positive : 0 < compared) :
    clamp (ofDecimal 1 3) (ofNat 1000) (time / compared) = 1 ↔ time = compared := by
  rw [← div_eq_one_iff_eq positive.ne']
  have low : (ofDecimal 1 3 : Rat) < 1 := by
    rw [ofDecimal_rat]
    norm_num
  have high : (1 : Rat) < ofNat 1000 := by
    rw [ofNat_rat]
    norm_num
  unfold clamp
  simp only [lt_rat]
  split_ifs with below above
  · exact iff_of_false low.ne (below.trans low).ne
  · exact iff_of_false high.ne' (high.trans above).ne'
  · rfl

theorem observations_unseen (unseen : estimator.observed.get? key = none) :
    estimator.observations key = ⟨0, 0⟩ := by
  rw [observations, unseen]
  rfl

theorem scale_once (unseen : estimator.observed.get? key = none) {ratio : Rat}
    (taken : estimator.sample? node = some (key, ratio)) :
    (estimator.after [[node]]).scale key =
      1 - 1 / (1 + estimator.config.priorWeight) +
        1 / (1 + estimator.config.priorWeight) * ratio := by
  have ratios : estimator.ratios [[node]] key = [ratio] := by
    simp [ratios, ratiosOf, taken]
  have held : (estimator.after [[node]]).observations key = ⟨1, ratio⟩ := by
    rw [held_after, ratios, observations_unseen unseen]
    exact congrArg (Observations.mk 1) (zero_add ratio)
  have weight : (estimator.after [[node]]).weight key = 1 / (1 + estimator.config.priorWeight) := by
    rw [weight_eq, samples_eq, held, config_after, Nat.cast_one]
  rw [scale, weight, held]
  change 1 - _ + _ * (ratio / 1) = _
  rw [div_one]

theorem declaredTime_eq_comparedTime_iff : estimator.declaredTime key (measured sizes) =
      estimator.comparedTime key sizes ↔ (estimator.model key).perKbMs = 0 ∨
        totalBytes sizes = totalRows sizes * estimator.config.defaultRecordBytes := by
  rw [declaredTime, comparedTime, rows_measured, bytes_measured, CostModel.timeMs_eq_iff,
    Nat.cast_inj]

/-- A run that took just the expected time leaves the expectation of a key that was not seen before
exactly where it is not compared, where nothing was expected, where the model does not look at bytes
or where the rows have the standard size on average. -/
theorem expected_calibrate_iff {config : EngineConfig Rat} (accepted : config.validate = .ok ())
    (configured : estimator.config = config.estimator)
    (unseen : estimator.observed.get? key = none) {model : CostModel Rat}
    (declared : estimator.declared? key = some model) (valid : model.validate = .ok ())
    (some_rows : 0 < totalRows sizes) (meets : estimator.Meets key sizes node) :
    ((estimator.calibrate [node]).1.estimate key (measured sizes)).time.expected =
        (estimator.estimate key (measured sizes)).time.expected ↔
      estimator.comparedTime key sizes ≤ leastDeclared ∨
        (estimator.estimate key (measured sizes)).time.expected = 0 ∨ model.perKbMs = 0 ∨
        totalBytes sizes = totalRows sizes * estimator.config.defaultRecordBytes := by
  have checked : estimator.config.Checked := configured ▸ EngineConfig.checked accepted
  have taken := sample?_meets meets some_rows
  have modelled : estimator.model key = model := by
    rw [Estimator.model, declared]
    rfl
  have amount : 0 ≤ estimator.declaredTime key (measured sizes) :=
    (amounts_rat.declared (modelled ▸ valid) _).1
  have unmoved : estimator.scale key = 1 := by
    refine scale_unseen ?_
    rw [samples_eq, observations_unseen unseen]
  have before : (estimator.estimate key (measured sizes)).time.expected =
      estimator.declaredTime key (measured sizes) := by
    rw [expected_estimate checked (by rwa [unmoved, mul_one]), unmoved, mul_one]
  by_cases small : estimator.comparedTime key sizes ≤ leastDeclared
  · rw [if_pos small] at taken
    have same : (estimator.calibrate [node]).1 = estimator := by
      simp [calibrate, taken]
    exact iff_of_true (by rw [same]) (.inl small)
  · rw [if_neg small, before] at taken
    have least : (0 : Rat) < leastDeclared := by decide +kernel
    have compared := least.trans (not_le.mp small)
    have ratio := (ratio_mem taken).1
    have scaled := scale_once unseen taken
    have checked' : (estimator.after [[node]]).config.Checked := by rwa [config_after]
    have weight : 1 / (1 + estimator.config.priorWeight) ≤ 1 :=
      (div_le_one (add_pos one_pos checked.prior)).mpr
        (le_add_of_nonneg_right checked.prior.le)
    have factor : 0 ≤ (estimator.after [[node]]).scale key := by
      rw [scaled]
      refine add_nonneg (sub_nonneg.mpr weight) (mul_nonneg ?_ (by linarith))
      exact (one_div_pos.mpr (add_pos one_pos checked.prior)).le
    change ((estimator.after [[node]]).estimate key (measured sizes)).time.expected = _ ↔ _
    rw [expected_estimate checked' (by rw [declaredTime_after]; exact mul_nonneg amount factor),
      declaredTime_after, scaled, before, blended_eq_iff checked.prior,
      clamp_eq_one_iff compared, declaredTime_eq_comparedTime_iff, modelled,
      or_iff_right small]

def bytesOnly : Estimator Rat :=
  create (fun _ => .ok (some (.linear 0 0 1 0 0)))
    (EngineConfig.standard : EngineConfig Rat).estimator

def kilobyteRun : LineageNode Rat :=
  ⟨0, "op", .main, some "k.main", none, some ⟨1, 1024, 1024, 1024⟩, none⟩

/-- The run took the expected millisecond, which moves the expectation. -/
theorem expected_calibrate_iff_kilobyteRun :
    bytesOnly.Meets "k.main" [(1024, 1)] kilobyteRun ∧
      (bytesOnly.estimate "k.main" (measured [(1024, 1)])).time.expected = 1 ∧
      ((bytesOnly.calibrate [kilobyteRun]).1.estimate "k.main"
        (measured [(1024, 1)])).time.expected ≠ 1 := by
  have expected : (bytesOnly.estimate "k.main" (measured [(1024, 1)])).time.expected = 1 := by
    decide +kernel
  have meets : bytesOnly.Meets "k.main" [(1024, 1)] kilobyteRun :=
    ⟨rfl, rfl, _, rfl, rfl, expected.symm⟩
  have accepted : (EngineConfig.standard : EngineConfig Rat).validate = .ok () := rfl
  have valid : (CostModel.linear 0 0 1 0 0 : CostModel Rat).validate = .ok () := by
    rw [CostModel.validate]
    exact if_pos (by decide +kernel)
  have kept := expected_calibrate_iff accepted rfl rfl rfl valid (by decide) meets
  refine ⟨meets, expected, fun same => ?_⟩
  rcases kept.mp (same.trans expected.symm) with small | none | flat | standard
  · exact absurd small (by decide +kernel)
  · exact absurd (expected.symm.trans none) (by norm_num)
  · exact absurd flat (by decide +kernel)
  · exact absurd standard (by decide)

end Estimator

end CrossPlan
