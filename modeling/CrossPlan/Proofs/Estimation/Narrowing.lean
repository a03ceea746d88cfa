import CrossPlan.Proofs.Estimation.History
import CrossPlan.Proofs.Estimation.Loads
import CrossPlan.Proofs.Quantity
import Mathlib.Analysis.Convex.Segment
import Mathlib.Tactic.Linarith

/-!
# Calibration narrows estimates

On exact numbers the samples of a key count for a part of the whole that grows with their number and
stays below one.  The confidence in an estimate grows with that part, from what it is without
samples towards one, and its interval narrows about its midpoint by as much.  The midpoint is what
the model says, but for the time, which moves towards the observed one by that part of the way.
-/

set_option autoImplicit false

namespace CrossPlan

open Quantity

theorem inUnit_rat {a : Rat} : inUnit a = true ↔ 0 ≤ a ∧ a ≤ 1 := by
  rw [inUnit, Bool.and_eq_true, le_rat, le_rat, zero_rat, one_rat]

theorem notNegative_rat {a : Rat} : notNegative a = true ↔ 0 ≤ a := by
  rw [notNegative, Bool.and_eq_true, le_rat, zero_rat]
  exact and_iff_right rfl

theorem amounts_rat : Amounts fun a : Rat => 0 ≤ a where
  count n := Nat.cast_nonneg n
  coefficient _ := notNegative_rat.mp
  add _ _ := add_nonneg
  mul _ _ := mul_nonneg
  share _ n dividend _ := div_nonneg dividend (Nat.cast_nonneg n)
  larger a := (le_max_right a 0).trans_eq (larger_rat a 0).symm

/-! ## Intervals about a midpoint -/

namespace Interval

structure Centered (interval : Interval Rat) (value : Rat) : Prop where
  nonneg : 0 ≤ interval.lower
  ordered : interval.lower ≤ interval.upper
  middle : interval.expected = value

def relativeWidth (interval : Interval Rat) : Rat := interval.width / interval.expected

/-- Another interval is narrower, each in relation to its midpoint, where these are above zero. -/
def NarrowsTo (interval other : Interval Rat) : Prop :=
  0 < interval.expected → 0 < other.expected → other.relativeWidth < interval.relativeWidth

variable {value share : Rat}

/-- An interval that takes no more than the whole of its value is not cut off. -/
theorem around_mul (amount : 0 ≤ value) (least : 0 ≤ share) (most : share ≤ 1) :
    around value (value * share) = ⟨value - value * share, value + value * share⟩ := by
  have half : 0 ≤ value * share := mul_nonneg amount least
  have within : 0 ≤ value - value * share := sub_nonneg.mpr (mul_le_of_le_one_right amount most)
  have center : larger value zero = value := (larger_rat value 0).trans (max_eq_left amount)
  rw [around, center, size_rat, abs_of_nonneg half, larger_rat]
  exact congrArg (Interval.mk · _) (max_eq_left within)

theorem expected_around_mul (amount : 0 ≤ value) (least : 0 ≤ share) (most : share ≤ 1) :
    (around value (value * share)).expected = value := by
  rw [around_mul amount least most]
  change (value - value * share + (value + value * share)) / 2 = value
  ring

theorem centered_around_mul (amount : 0 ≤ value) (least : 0 ≤ share) (most : share ≤ 1) :
    (around value (value * share)).Centered value where
  nonneg := by
    rw [around_mul amount least most]
    exact sub_nonneg.mpr (mul_le_of_le_one_right amount most)
  ordered := by
    have half : 0 ≤ value * share := mul_nonneg amount least
    rw [around_mul amount least most]
    exact (sub_le_self value half).trans (le_add_of_nonneg_right half)
  middle := expected_around_mul amount least most

theorem relativeWidth_around_mul (positive : 0 < value) (least : 0 ≤ share) (most : share ≤ 1) :
    (around value (value * share)).relativeWidth = 2 * share := by
  rw [relativeWidth, expected_around_mul positive.le least most,
    around_mul positive.le least most, div_eq_iff positive.ne']
  change value + value * share - (value - value * share) = 2 * share * value
  ring

end Interval

/-! ## Means of ratios -/

def meanOf (ratios : List Rat) : Rat :=
  if ratios.length = 0 then 1 else ratios.sum / ratios.length

theorem meanOf_mem {low high : Rat} {ratios : List Rat} (least : low ≤ 1) (most : 1 ≤ high)
    (within : ∀ ratio ∈ ratios, low ≤ ratio ∧ ratio ≤ high) :
    low ≤ meanOf ratios ∧ meanOf ratios ≤ high := by
  unfold meanOf
  split
  · exact ⟨least, most⟩
  · next some =>
    have positive : (0 : Rat) < ratios.length := Nat.cast_pos.mpr (Nat.pos_of_ne_zero some)
    have below := List.card_nsmul_le_sum ratios low fun ratio listed => (within ratio listed).1
    have above := List.sum_le_card_nsmul ratios high fun ratio listed => (within ratio listed).2
    rw [nsmul_eq_mul] at below above
    rw [le_div_iff₀ positive, div_le_iff₀ positive, mul_comm low, mul_comm high]
    exact ⟨below, above⟩

theorem blend_mem_uIcc (a b : Rat) {weight : Rat} (least : 0 ≤ weight) (most : weight ≤ 1) :
    (1 - weight) * a + weight * b ∈ Set.uIcc a b := by
  rw [← segment_eq_uIcc]
  exact ⟨1 - weight, weight, sub_nonneg.mpr most, least, sub_add_cancel 1 weight, rfl⟩

/-! ## Estimators with checked settings -/

structure EstimatorConfig.Checked (config : EstimatorConfig Rat) : Prop where
  prior : 0 < config.priorWeight
  spread : 0 ≤ config.spread ∧ config.spread ≤ 1
  least : 0 ≤ config.minConfidence ∧ config.minConfidence ≤ 1
  declared : 0 ≤ config.declaredConfidence ∧ config.declaredConfidence ≤ 1

theorem EngineConfig.checked {config : EngineConfig Rat} (accepted : config.validate = .ok ()) :
    config.estimator.Checked := by
  obtain ⟨positive, spread, least, declared⟩ := EngineConfig.validate_ok accepted
  rw [le_rat, zero_rat, not_le] at positive
  exact ⟨positive, inUnit_rat.mp spread, inUnit_rat.mp least, inUnit_rat.mp declared⟩

namespace Estimator

variable {estimator other : Estimator Rat} {key : String} {inputs : List Statistics}

theorem weight_eq (key : String) : estimator.weight key =
    (estimator.samples key : Rat) / (estimator.samples key + estimator.config.priorWeight) := rfl

theorem weight_mem (checked : estimator.config.Checked) (key : String) :
    0 ≤ estimator.weight key ∧ estimator.weight key < 1 := by
  have samples : (0 : Rat) ≤ estimator.samples key := Nat.cast_nonneg _
  have total := add_pos_of_nonneg_of_pos samples checked.prior
  rw [weight_eq, div_lt_one total]
  exact ⟨div_nonneg samples total.le, lt_add_of_pos_right _ checked.prior⟩

theorem weight_lt (checked : estimator.config.Checked) (same : other.config = estimator.config)
    (more : estimator.samples key < other.samples key) :
    estimator.weight key < other.weight key := by
  have samples : (0 : Rat) ≤ estimator.samples key := Nat.cast_nonneg _
  have samples' : (0 : Rat) ≤ other.samples key := Nat.cast_nonneg _
  have fewer : (estimator.samples key : Rat) < other.samples key := Nat.cast_lt.mpr more
  rw [weight_eq, weight_eq, same, div_lt_div_iff₀ (add_pos_of_nonneg_of_pos samples checked.prior)
    (add_pos_of_nonneg_of_pos samples' checked.prior)]
  have := mul_lt_mul_of_pos_right fewer checked.prior
  linarith

theorem baseConfidence_mem (checked : estimator.config.Checked) (key : String)
    (inputs : List Statistics) :
    0 ≤ estimator.baseConfidence key inputs ∧ estimator.baseConfidence key inputs ≤ 1 := by
  unfold baseConfidence
  split
  · exact checked.declared
  · exact checked.least

/-- What is missing of full confidence is the missing part of what is missing without samples. -/
theorem one_sub_confidence (checked : estimator.config.Checked) (key : String)
    (inputs : List Statistics) :
    1 - estimator.confidence key inputs =
      (1 - estimator.baseConfidence key inputs) * (1 - estimator.weight key) := by
  obtain ⟨least, most⟩ := baseConfidence_mem checked key inputs
  obtain ⟨least', most'⟩ := weight_mem checked key
  have held : estimator.confidence key inputs = estimator.baseConfidence key inputs +
      (1 - estimator.baseConfidence key inputs) * estimator.weight key := by
    have part := mul_le_of_le_one_right (sub_nonneg.mpr most) most'.le
    rw [confidence_eq_clamp]
    refine clamp_rat_of_mem (add_nonneg least (mul_nonneg (sub_nonneg.mpr most) least')) ?_
    exact (add_le_add_right part _).trans_eq (add_sub_cancel _ _)
  rw [held]
  ring

theorem confidence_mem (estimator : Estimator Rat) (key : String) (inputs : List Statistics) :
    0 ≤ estimator.confidence key inputs ∧ estimator.confidence key inputs ≤ 1 :=
  clamp_mem_rat zero_le_one _

theorem relative_eq (estimator : Estimator Rat) (key : String) (inputs : List Statistics) :
    estimator.relative key inputs =
      estimator.config.spread * (1 - estimator.confidence key inputs) := rfl

theorem relative_mem (checked : estimator.config.Checked) (key : String)
    (inputs : List Statistics) :
    0 ≤ estimator.relative key inputs ∧ estimator.relative key inputs ≤ 1 := by
  obtain ⟨least, most⟩ := estimator.confidence_mem key inputs
  rw [relative_eq]
  refine ⟨mul_nonneg checked.spread.1 (sub_nonneg.mpr most), ?_⟩
  exact mul_le_one₀ checked.spread.2 (sub_nonneg.mpr most) (sub_le_self 1 least)

theorem centered_spreadOut (checked : estimator.config.Checked) {value : Rat} (amount : 0 ≤ value) :
    (estimator.spreadOut key inputs value).Centered value :=
  have ⟨least, most⟩ := relative_mem checked key inputs
  Interval.centered_around_mul amount least most

/-! ## What runs make of an estimate -/

theorem ratio_mem {node : LineageNode Rat} {sample : String × Rat}
    (taken : estimator.sample? node = some sample) : 1 / 1000 ≤ sample.2 ∧ sample.2 ≤ 1000 := by
  simp only [sample?, Option.bind_eq_bind, Option.bind_eq_some_iff] at taken
  obtain ⟨key, -, realized, -, taken⟩ := taken
  split at taken
  · cases taken
  · cases taken
    have thousandth : (ofDecimal 1 3 : Rat) = 1 / 1000 := by
      rw [ofDecimal_rat]
      norm_num
    have ordered : (ofDecimal 1 3 : Rat) ≤ ofNat 1000 := by
      rw [thousandth, ofNat_rat]
      norm_num
    exact thousandth ▸ clamp_mem_rat ordered _

theorem ratios_mem (estimator : Estimator Rat) (runs : List (List (LineageNode Rat)))
    (key : String) : ∀ ratio ∈ estimator.ratios runs key, 1 / 1000 ≤ ratio ∧ ratio ≤ 1000 := by
  intro ratio listed
  obtain ⟨nodes, -, node, -, taken⟩ := mem_ratios listed
  exact ratio_mem taken

theorem model_after (runs : List (List (LineageNode Rat))) (key : String) :
    (estimator.after runs).model key = estimator.model key := by
  rw [model, declared?, source_after]
  rfl

theorem baseConfidence_after (runs : List (List (LineageNode Rat))) :
    (estimator.after runs).baseConfidence key inputs = estimator.baseConfidence key inputs := by
  rw [baseConfidence, declared?, source_after, config_after]
  rfl

theorem declaredTime_after (runs : List (List (LineageNode Rat))) :
    (estimator.after runs).declaredTime key inputs = estimator.declaredTime key inputs := by
  rw [declaredTime, model_after, config_after]
  rfl

theorem declaredMemory_after (runs : List (List (LineageNode Rat))) :
    (estimator.after runs).declaredMemory key inputs = estimator.declaredMemory key inputs := by
  rw [declaredMemory, model_after, config_after]
  rfl

theorem declaredNetwork_after (runs : List (List (LineageNode Rat))) :
    (estimator.after runs).declaredNetwork key inputs = estimator.declaredNetwork key inputs := by
  rw [declaredNetwork, model_after, config_after]
  rfl

section

variable (source : SpecSource Rat) {config : EstimatorConfig Rat}

theorem samples_after (runs : List (List (LineageNode Rat))) (key : String) :
    ((create source config).after runs).samples key =
      ((create source config).ratios runs key).length := by
  rw [samples_eq, observations_after]

theorem meanRatio_after (runs : List (List (LineageNode Rat))) (key : String) :
    (((create source config).after runs).observations key).meanRatio =
      meanOf ((create source config).ratios runs key) := by
  rw [observations_after, Observations.meanRatio, sum_rat]
  rfl

theorem scale_after (runs : List (List (LineageNode Rat))) (key : String) :
    ((create source config).after runs).scale key =
      1 - ((create source config).after runs).weight key +
        ((create source config).after runs).weight key *
          meanOf ((create source config).ratios runs key) := by
  rw [← meanRatio_after]
  rfl

theorem checked_after (checked : config.Checked) (runs : List (List (LineageNode Rat))) :
    ((create source config).after runs).config.Checked := by
  rw [config_after]
  exact checked

theorem meanOf_ratios (config : EstimatorConfig Rat) (runs : List (List (LineageNode Rat)))
    (key : String) :
    1 / 1000 ≤ meanOf ((create source config).ratios runs key) ∧
      meanOf ((create source config).ratios runs key) ≤ 1000 :=
  meanOf_mem (by norm_num) (by norm_num) (ratios_mem _ runs key)

theorem scale_nonneg (checked : config.Checked) (runs : List (List (LineageNode Rat)))
    (key : String) : 0 ≤ ((create source config).after runs).scale key := by
  obtain ⟨least, most⟩ := weight_mem (checked_after source checked runs) key
  have low := (meanOf_ratios source config runs key).1
  rw [scale_after]
  exact add_nonneg (sub_nonneg.mpr most.le) (mul_nonneg least (by linarith))

end

theorem declared_nonneg {source : SpecSource Rat} (config : EstimatorConfig Rat)
    (declares : Declares source) (runs : List (List (LineageNode Rat)))
    (key : String) (inputs : List Statistics) :
    0 ≤ ((create source config).after runs).declaredTime key inputs ∧
      0 ≤ ((create source config).after runs).declaredMemory key inputs ∧
        0 ≤ ((create source config).after runs).declaredNetwork key inputs := by
  refine amounts_rat.declared ?_ inputs
  rw [model_after]
  exact validate_model declares rfl key

/-- An estimate after runs, with what they observed of its key. -/
structure Calibrated (fresh : Estimator Rat) (runs : List (List (LineageNode Rat))) (key : String)
    (inputs : List Statistics) : Prop where
  counted : (fresh.after runs).samples key = (fresh.ratios runs key).length
  held : ∀ ratio ∈ fresh.ratios runs key, 1 / 1000 ≤ ratio ∧ ratio ≤ 1000
  averaged : 1 / 1000 ≤ meanOf (fresh.ratios runs key) ∧ meanOf (fresh.ratios runs key) ≤ 1000
  trusted : 0 ≤ ((fresh.after runs).estimate key inputs).confidence ∧
    ((fresh.after runs).estimate key inputs).confidence ≤ 1
  time : ((fresh.after runs).estimate key inputs).time.Centered
    (fresh.declaredTime key inputs * (fresh.after runs).scale key)
  memory : ((fresh.after runs).estimate key inputs).memory.Centered
    (fresh.declaredMemory key inputs)
  network : ((fresh.after runs).estimate key inputs).network.Centered
    (fresh.declaredNetwork key inputs)
  between : ((fresh.after runs).estimate key inputs).time.expected ∈
    Set.uIcc (fresh.declaredTime key inputs)
      (fresh.declaredTime key inputs * meanOf (fresh.ratios runs key))

theorem calibrated {source : SpecSource Rat} {config : EstimatorConfig Rat}
    (checked : config.Checked) (declares : Declares source) (runs : List (List (LineageNode Rat)))
    (key : String) (inputs : List Statistics) :
    (create source config).Calibrated runs key inputs := by
  have checked' := checked_after source checked runs
  obtain ⟨least, most⟩ := weight_mem checked' key
  obtain ⟨time, memory, network⟩ := declared_nonneg config declares runs key inputs
  have scaled := mul_nonneg time (scale_nonneg source checked runs key)
  rw [declaredTime_after] at scaled
  rw [declaredMemory_after] at memory
  rw [declaredNetwork_after] at network
  have centered : (((create source config).after runs).estimate key inputs).time.Centered
      ((create source config).declaredTime key inputs *
        ((create source config).after runs).scale key) := by
    rw [estimate_eq, declaredTime_after]
    exact centered_spreadOut checked' scaled
  refine ⟨samples_after source runs key, ratios_mem _ runs key,
    meanOf_ratios source config runs key, confidence_mem _ key inputs, centered, ?_, ?_, ?_⟩
  · rw [estimate_eq, declaredMemory_after]
    exact centered_spreadOut checked' memory
  · rw [estimate_eq, declaredNetwork_after]
    exact centered_spreadOut checked' network
  · -- the time is as far from the declared to the observed one as the samples weigh
    have blended := blend_mem_uIcc ((create source config).declaredTime key inputs)
      ((create source config).declaredTime key inputs *
        meanOf ((create source config).ratios runs key)) least most.le
    rw [centered.middle, scale_after]
    convert blended using 1
    ring

/-! ## Fewer samples and more -/

section

variable (checked : estimator.config.Checked) (same : other.config = estimator.config)
  (base : other.baseConfidence key inputs = estimator.baseConfidence key inputs)
  (doubt : estimator.baseConfidence key inputs < 1)
  (more : estimator.samples key < other.samples key)

include checked same base doubt more

theorem confidence_lt : estimator.confidence key inputs < other.confidence key inputs := by
  have checked' : other.config.Checked := same ▸ checked
  have missing := one_sub_confidence checked key inputs
  have missing' := one_sub_confidence checked' key inputs
  have := mul_lt_mul_of_pos_left (weight_lt checked same more) (sub_pos.mpr doubt)
  rw [base] at missing'
  linarith

theorem narrowsTo_spreadOut (spread : 0 < estimator.config.spread) {value value' : Rat}
    (amount : 0 ≤ value) (amount' : 0 ≤ value') :
    (estimator.spreadOut key inputs value).NarrowsTo (other.spreadOut key inputs value') := by
  have checked' : other.config.Checked := same ▸ checked
  obtain ⟨least, most⟩ := relative_mem checked key inputs
  obtain ⟨least', most'⟩ := relative_mem checked' key inputs
  intro positive positive'
  rw [spreadOut, Interval.expected_around_mul amount least most] at positive
  rw [spreadOut, Interval.expected_around_mul amount' least' most'] at positive'
  rw [spreadOut, spreadOut, Interval.relativeWidth_around_mul positive least most,
    Interval.relativeWidth_around_mul positive' least' most', relative_eq, relative_eq, same]
  have trust := confidence_lt checked same base doubt more
  have := mul_lt_mul_of_pos_left trust spread
  linarith

end

/-- The estimates after some runs and after others that give more samples: the confidence is higher,
unless it was full from the start, and the intervals are narrower, unless nothing is spread out. -/
structure Firmer (fresh : Estimator Rat) (fewer more : List (List (LineageNode Rat))) (key : String)
    (inputs : List Statistics) : Prop where
  confidence : fresh.baseConfidence key inputs < 1 →
    ((fresh.after fewer).estimate key inputs).confidence <
      ((fresh.after more).estimate key inputs).confidence
  time : fresh.baseConfidence key inputs < 1 → 0 < fresh.config.spread →
    ((fresh.after fewer).estimate key inputs).time.NarrowsTo
      ((fresh.after more).estimate key inputs).time
  memory : fresh.baseConfidence key inputs < 1 → 0 < fresh.config.spread →
    ((fresh.after fewer).estimate key inputs).memory.NarrowsTo
      ((fresh.after more).estimate key inputs).memory
  network : fresh.baseConfidence key inputs < 1 → 0 < fresh.config.spread →
    ((fresh.after fewer).estimate key inputs).network.NarrowsTo
      ((fresh.after more).estimate key inputs).network

theorem firmer {source : SpecSource Rat} {config : EstimatorConfig Rat} (checked : config.Checked)
    (declares : Declares source) {fewer more : List (List (LineageNode Rat))} {key : String}
    (samples : ((create source config).after fewer).samples key <
      ((create source config).after more).samples key) (inputs : List Statistics) :
    (create source config).Firmer fewer more key inputs := by
  have checked' := checked_after source checked fewer
  have same : ((create source config).after more).config =
      ((create source config).after fewer).config := by rw [config_after, config_after]
  have base : ((create source config).after more).baseConfidence key inputs =
      ((create source config).after fewer).baseConfidence key inputs := by
    rw [baseConfidence_after, baseConfidence_after]
  obtain ⟨time, memory, network⟩ := declared_nonneg config declares fewer key inputs
  obtain ⟨time', memory', network'⟩ := declared_nonneg config declares more key inputs
  have scaled := mul_nonneg time (scale_nonneg source checked fewer key)
  have scaled' := mul_nonneg time' (scale_nonneg source checked more key)
  have narrows (doubt : (create source config).baseConfidence key inputs < 1)
      (spread : 0 < config.spread) {value value' : Rat} (amount : 0 ≤ value)
      (amount' : 0 ≤ value') :
      (((create source config).after fewer).spreadOut key inputs value).NarrowsTo
        (((create source config).after more).spreadOut key inputs value') := by
    refine narrowsTo_spreadOut checked' same base ?_ samples ?_ amount amount'
    · rw [baseConfidence_after]
      exact doubt
    · rw [config_after]
      exact spread
  refine ⟨fun doubt => ?_, fun doubt spread => narrows doubt spread scaled scaled',
    fun doubt spread => narrows doubt spread memory memory',
    fun doubt spread => narrows doubt spread network network'⟩
  refine confidence_lt checked' same base ?_ samples
  rw [baseConfidence_after]
  exact doubt

/-- With an accepted configuration and valid models, runs leave estimates centred and within bounds,
and the more samples they give of a key, the firmer its estimates are. -/
theorem calibration_narrows {config : EngineConfig Rat} (accepted : config.validate = .ok ())
    {source : SpecSource Rat}
    (declares : ∀ key model, source key = .ok (some model) → model.validate = .ok ())
    (key : String) (inputs : List Statistics) :
    (∀ runs, (create source config.estimator).Calibrated runs key inputs) ∧
    ∀ fewer more, ((create source config.estimator).after fewer).samples key <
        ((create source config.estimator).after more).samples key →
      (create source config.estimator).Firmer fewer more key inputs := by
  have checked := EngineConfig.checked accepted
  exact ⟨fun runs => calibrated checked declares runs key inputs,
    fun _ _ samples => firmer checked declares samples inputs⟩

def hundredRows : SpecSource Rat := fun _ => .ok (some (.linear 1 (1 / 100) 0 2 3))

def hundred : Estimator Rat :=
  create hundredRows (EngineConfig.standard : EngineConfig Rat).estimator

def slowRun : List (LineageNode Rat) :=
  [⟨0, "grown", .main, some "local.filter.main", none, some ⟨6, 100, 10, 640⟩, none⟩]

/-- One slow run moves the expected time away from what was declared and narrows all intervals. -/
theorem calibration_narrows_slowRun :
    hundred.ratios [slowRun] "local.filter.main" = [3] ∧
      hundred.Calibrated [slowRun] "local.filter.main" [⟨some 100, some 10⟩] ∧
      (hundred.estimate "local.filter.main" [⟨some 100, some 10⟩]).confidence <
        ((hundred.after [slowRun]).estimate "local.filter.main" [⟨some 100, some 10⟩]).confidence ∧
      ((hundred.after [slowRun]).estimate "local.filter.main"
          [⟨some 100, some 10⟩]).time.relativeWidth <
        (hundred.estimate "local.filter.main" [⟨some 100, some 10⟩]).time.relativeWidth := by
  have accepted : (EngineConfig.standard : EngineConfig Rat).validate = .ok () := rfl
  have declares : ∀ key model, hundredRows key = .ok (some model) → model.validate = .ok () := by
    rintro _ _ ⟨⟩
    exact if_pos (by decide +kernel)
  obtain ⟨calibrated, firmer⟩ :=
    calibration_narrows accepted declares "local.filter.main" [⟨some 100, some 10⟩]
  have firm := firmer [] [slowRun] (by decide +kernel)
  exact ⟨by decide +kernel, calibrated [slowRun], firm.confidence (by decide +kernel),
    firm.time (by decide +kernel) (by decide +kernel) (by decide +kernel) (by decide +kernel)⟩

end Estimator

end CrossPlan
