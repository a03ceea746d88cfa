import CrossPlan.Proofs.Estimation.History
import CrossPlan.Proofs.Estimation.Loads
import CrossPlan.Proofs.Quantity
import Mathlib.Data.Nat.Cast.Order.Ring

/-!
# Usable estimates

Settings and costs may be undefined: such a value compares with nothing, not even with itself, and
everything that is computed from it is undefined too.  The check of a configuration keeps undefined
values out of the spread and the confidences, which have to lie within bounds.  Of the prior weight
it asks only that it is not at most zero, and an undefined weight is not.  That setting decides
alone whether the estimates of a checked configuration can be used.
-/

set_option autoImplicit false

namespace CrossPlan

/-! ## Exact numbers beside an undefined one -/

/-- An exact rational, or the outcome of an operation that has none. -/
inductive Extended where
  | number (value : Rat)
  | undefined
  deriving DecidableEq

namespace Extended

def lift (operation : Rat → Rat → Rat) : Extended → Extended → Extended
  | number a, number b => number (operation a b)
  | _, _ => undefined

def divide : Extended → Extended → Extended
  | number a, number b => if b = 0 then undefined else number (a / b)
  | _, _ => undefined

def compares (comparison : Rat → Rat → Bool) : Extended → Extended → Bool
  | number a, number b => comparison a b
  | _, _ => false

def rank : Extended → Extended → Ordering
  | number a, number b => Quantity.rank a b
  | number _, undefined => .lt
  | undefined, number _ => .gt
  | undefined, undefined => .eq

def count : Extended → Nat
  | number a => Quantity.count a
  | undefined => 0

end Extended

instance : Quantity Extended where
  add := .lift (· + ·)
  sub := .lift (· - ·)
  mul := .lift (· * ·)
  div := .divide
  ofNat n := .number n
  ofDecimal digits places := .number (Quantity.ofDecimal digits places)
  lt := Extended.compares Quantity.lt
  eq := Extended.compares Quantity.eq
  rank := Extended.rank
  finite a := a != .undefined
  count := Extended.count

namespace Extended

open Quantity

@[simp]
theorem zero_eq : (zero : Extended) = number 0 := rfl

@[simp]
theorem one_eq : (one : Extended) = number 1 := rfl

theorem number_div {a b : Rat} (divisor : b ≠ 0) : number a / number b = number (a / b) :=
  if_neg divisor

@[simp]
theorem add_undefined (a : Extended) : a + undefined = undefined := by cases a <;> rfl

@[simp]
theorem mul_undefined (a : Extended) : a * undefined = undefined := by cases a <;> rfl

@[simp]
theorem div_undefined (a : Extended) : a / undefined = undefined := by cases a <;> rfl

@[simp]
theorem lt_number (a b : Rat) : lt (number a) (number b) = true ↔ a < b := lt_rat a b

theorem le_number (a b : Rat) : le (number a) (number b) = true ↔ a ≤ b := le_rat a b

theorem larger_number (a b : Rat) : larger (number a) (number b) = number (max a b) :=
  (apply_ite number _ b a).symm.trans (congrArg number (larger_rat a b))

theorem le_iff {x y : Extended} :
    le x y = true ↔ ∃ a b, x = number a ∧ y = number b ∧ a ≤ b := by
  constructor
  · intro less
    cases x with
    | undefined => cases y <;> cases less
    | number a =>
      cases y with
      | undefined => cases less
      | number b => exact ⟨a, b, rfl, rfl, (le_number a b).mp less⟩
  · rintro ⟨a, b, rfl, rfl, less⟩
    exact (le_number a b).mpr less

/-! ## Amounts and shares -/

def Amount (x : Extended) : Prop := ∃ a : Rat, x = number a ∧ 0 ≤ a

def Share (x : Extended) : Prop := ∃ a : Rat, x = number a ∧ 0 ≤ a ∧ a ≤ 1

theorem amount_iff {x : Extended} : Amount x ↔ le zero x = true := by
  rw [le_iff]
  constructor
  · rintro ⟨a, rfl, least⟩
    exact ⟨0, a, rfl, rfl, least⟩
  · rintro ⟨_, a, same, rfl, least⟩
    cases same
    exact ⟨a, rfl, least⟩

theorem share_iff {x : Extended} : Share x ↔ inUnit x = true := by
  rw [inUnit, Bool.and_eq_true, ← amount_iff, le_iff]
  constructor
  · rintro ⟨a, rfl, least, most⟩
    exact ⟨⟨a, rfl, least⟩, a, 1, rfl, rfl, most⟩
  · rintro ⟨⟨a, rfl, least⟩, _, _, same, one, most⟩
    cases same
    cases one
    exact ⟨a, rfl, least, most⟩

theorem amount_ofNat (n : Nat) : Amount (ofNat n) := ⟨n, rfl, Nat.cast_nonneg n⟩

theorem amount_ofDecimal (digits places : Nat) : Amount (ofDecimal digits places) :=
  ⟨_, rfl, Rat.mkRat_nonneg (Int.natCast_nonneg digits) _⟩

theorem amount_larger (x : Extended) : Amount (larger x zero) := by
  cases x with
  | undefined => exact ⟨0, rfl, le_rfl⟩
  | number a => exact ⟨max a 0, larger_number a 0, le_max_right a 0⟩

theorem amount_of_notNegative {x : Extended} (good : notNegative x = true) : Amount x :=
  amount_iff.mpr (Bool.and_eq_true_iff.mp good).2

namespace Amount

variable {x y : Extended}

theorem add (first : Amount x) (second : Amount y) : Amount (x + y) := by
  obtain ⟨a, rfl, least⟩ := first
  obtain ⟨b, rfl, least'⟩ := second
  exact ⟨a + b, rfl, add_nonneg least least'⟩

theorem mul (first : Amount x) (second : Amount y) : Amount (x * y) := by
  obtain ⟨a, rfl, least⟩ := first
  obtain ⟨b, rfl, least'⟩ := second
  exact ⟨a * b, rfl, mul_nonneg least least'⟩

theorem div_ofNat (dividend : Amount x) {n : Nat} (divisor : n ≠ 0) : Amount (x / ofNat n) := by
  obtain ⟨a, rfl, least⟩ := dividend
  exact ⟨a / n, number_div (Nat.cast_ne_zero.mpr divisor), div_nonneg least (Nat.cast_nonneg n)⟩

theorem clamp {low high : Extended} (lower : Amount low) (upper : Amount high) (a : Rat) :
    Amount (clamp low high (number a)) := by
  obtain ⟨least, rfl, nonneg⟩ := lower
  rw [Quantity.clamp]
  split
  · exact ⟨least, rfl, nonneg⟩
  · next above =>
    split
    · exact upper
    · exact ⟨a, rfl, nonneg.trans (not_lt.mp fun below => above ((lt_number a least).mpr below))⟩

end Amount

theorem amounts : Amounts Amount where
  count := amount_ofNat
  coefficient _ := amount_of_notNegative
  add _ _ := .add
  mul _ _ := .mul
  share _ _ dividend divisor := dividend.div_ofNat divisor
  larger := amount_larger

namespace Share

variable {x : Extended}

theorem amount (share : Share x) : Amount x := by
  obtain ⟨a, rfl, least, -⟩ := share
  exact ⟨a, rfl, least⟩

theorem complement (share : Share x) : Share (one - x) := by
  obtain ⟨a, rfl, least, most⟩ := share
  exact ⟨1 - a, rfl, sub_nonneg.mpr most, sub_le_self 1 least⟩

theorem clamp (amount : Amount x) : Share (clamp zero one x) := by
  obtain ⟨a, rfl, least⟩ := amount
  rw [Quantity.clamp, zero_eq, one_eq,
    if_neg (fun below => least.not_gt ((lt_number a 0).mp below))]
  split
  · exact ⟨1, rfl, zero_le_one, le_rfl⟩
  · next within =>
    exact ⟨a, rfl, least, not_lt.mp fun above => within ((lt_number 1 a).mpr above)⟩

end Share

end Extended

open Extended

/-! ## Loads that can be used -/

def Interval.Usable (interval : Interval Extended) : Prop :=
  ∃ lower upper : Rat, interval = ⟨.number lower, .number upper⟩ ∧ 0 ≤ lower ∧ lower ≤ upper

structure LoadProfile.Usable (profile : LoadProfile Extended) : Prop where
  time : profile.time.Usable
  memory : profile.memory.Usable
  network : profile.network.Usable
  confidence : Share profile.confidence

/-- Around any value, even an undefined one, an interval whose half width is known is usable. -/
theorem Interval.usable_around (expected : Extended) {halfWidth : Extended}
    (known : Amount halfWidth) : (Interval.around expected halfWidth).Usable := by
  obtain ⟨center, center_eq, least⟩ := amount_larger expected
  obtain ⟨half, rfl, nonneg⟩ := known
  have size_eq : Quantity.size (number half) = number half :=
    if_neg fun below => nonneg.not_gt ((lt_number half 0).mp below)
  refine ⟨max (center - half) 0, center + half, ?_, le_max_right _ _, max_le ?_ ?_⟩
  · rw [Interval.around, center_eq, size_eq]
    exact congrArg (Interval.mk · _) (larger_number (center - half) 0)
  · exact (sub_le_self center nonneg).trans (le_add_of_nonneg_right nonneg)
  · exact add_nonneg least nonneg

/-! ## Estimators -/

/-- A node whose time, if it was measured, is a number. -/
def LineageNode.Measured (node : LineageNode Extended) : Prop :=
  ∀ realized, node.realized = some realized → ∃ time, realized.elapsedMs = .number time

namespace Estimator

variable {estimator : Estimator Extended}

theorem exists_leastDeclared :
    ∃ least : Rat, (leastDeclared : Extended) = number least ∧ 0 < least :=
  have many : (0 : Rat) < Decimal.fractions := Nat.cast_pos.mpr (by decide)
  ⟨1 / Decimal.fractions, number_div many.ne', one_div_pos.mpr many⟩

/-- What is taken of a measured node is an amount, as it is held within two bounds. -/
theorem amount_sample (declares : Declares estimator.source) {node : LineageNode Extended}
    (measured : node.Measured) {sample : String × Extended}
    (taken : estimator.sample? node = some sample) : Amount sample.2 := by
  simp only [sample?, Option.bind_eq_bind, Option.bind_eq_some_iff] at taken
  obtain ⟨key, _, realized, here, taken⟩ := taken
  obtain ⟨time, elapsed⟩ := measured realized here
  have known := amounts.sizing estimator.config node.phase realized
  have declared := (amounts.of_validate (validate_model declares rfl key) known.1 known.2).1
  obtain ⟨least, declared, nonneg⟩ := declared
  split at taken
  · cases taken
  · next enough =>
    obtain ⟨bound, bound_eq, positive⟩ := exists_leastDeclared
    rw [declared, bound_eq, le_number, not_le] at enough
    cases taken
    rw [elapsed, declared, number_div (positive.trans enough).ne']
    exact (amount_ofDecimal 1 3).clamp (amount_ofNat 1000) _

theorem amount_meanRatio {source : SpecSource Extended} (config : EstimatorConfig Extended)
    (declares : Declares source) {runs : List (List (LineageNode Extended))}
    (measured : ∀ nodes ∈ runs, ∀ node ∈ nodes, node.Measured) (key : String) :
    Amount (((create source config).after runs).observations key).meanRatio := by
  rw [observations_after, Observations.meanRatio]
  split
  · exact amount_ofNat 1
  · next sampled =>
    refine (amounts.sum fun ratio listed => ?_).div_ofNat sampled
    obtain ⟨nodes, run, node, member, taken⟩ := mem_ratios listed
    exact amount_sample declares (measured nodes run node member) taken

/-! ## Estimates -/

theorem share_weight {prior : Rat} (given : estimator.config.priorWeight = .number prior)
    (positive : 0 < prior) (key : String) : Share (estimator.weight key) := by
  have samples : (0 : Rat) ≤ estimator.samples key := Nat.cast_nonneg _
  have total : (0 : Rat) < estimator.samples key + prior :=
    add_pos_of_nonneg_of_pos samples positive
  rw [weight, given]
  exact ⟨_, number_div total.ne', div_nonneg samples total.le,
    div_le_one_of_le₀ (le_add_of_nonneg_right positive.le) total.le⟩

theorem weight_undefined (given : estimator.config.priorWeight = .undefined) (key : String) :
    estimator.weight key = .undefined := by
  rw [weight, given, add_undefined, div_undefined]

theorem confidence_undefined (given : estimator.config.priorWeight = .undefined) (key : String)
    (inputs : List Statistics) : estimator.confidence key inputs = .undefined := by
  simp only [confidence, weight_undefined given, mul_undefined, add_undefined]
  rfl

theorem share_confidence {key : String} (weighed : Share (estimator.weight key))
    (declared : Share estimator.config.declaredConfidence)
    (least : Share estimator.config.minConfidence) (inputs : List Statistics) :
    Share (estimator.confidence key inputs) := by
  have base : Share (estimator.baseConfidence key inputs) := by
    rw [baseConfidence]
    split
    · exact declared
    · exact least
  rw [confidence_eq_clamp]
  exact .clamp (base.amount.add (base.complement.amount.mul weighed.amount))

theorem usable_estimate {key : String} (valid : (estimator.model key).validate = .ok ())
    (mean : Amount (estimator.observations key).meanRatio) (weighed : Share (estimator.weight key))
    (spread : Share estimator.config.spread) (declared : Share estimator.config.declaredConfidence)
    (least : Share estimator.config.minConfidence) (inputs : List Statistics) :
    (estimator.estimate key inputs).Usable := by
  obtain ⟨time, memory, network⟩ := amounts.declared valid inputs
  have scale : Amount (estimator.scale key) :=
    weighed.complement.amount.add (weighed.amount.mul mean)
  have trust := share_confidence weighed declared least inputs
  have relative : Amount (estimator.relative key inputs) :=
    spread.amount.mul trust.complement.amount
  rw [estimate_eq]
  exact ⟨Interval.usable_around _ ((time.mul scale).mul relative),
    Interval.usable_around _ (memory.mul relative),
    Interval.usable_around _ (network.mul relative), trust⟩

/-- The estimates of a configuration that was accepted can be used, whatever models are declared and
whatever was measured, if and only if its prior weight is a number. -/
theorem usable_estimate_iff {config : EngineConfig Extended} (accepted : config.validate = .ok ())
    {source : SpecSource Extended}
    (declares : ∀ key model, source key = .ok (some model) → model.validate = .ok ())
    {runs : List (List (LineageNode Extended))}
    (measured : ∀ nodes ∈ runs, ∀ node ∈ nodes, node.Measured) (key : String)
    (inputs : List Statistics) :
    (((create source config.estimator).after runs).estimate key inputs).Usable ↔
      config.estimator.priorWeight ≠ .undefined := by
  have same : ((create source config.estimator).after runs).config = config.estimator :=
    config_after runs
  have models : Declares ((create source config.estimator).after runs).source := by
    rw [source_after]
    exact declares
  have mean := amount_meanRatio config.estimator declares measured key
  generalize (create source config.estimator).after runs = estimator at same models mean
  obtain ⟨positive, spread, least, declared⟩ := EngineConfig.validate_ok accepted
  rw [← share_iff] at spread least declared
  constructor
  · intro usable undefined
    -- an undefined weight spoils every confidence, whatever else the key and the inputs are
    obtain ⟨value, defined, -⟩ := usable.confidence
    rw [← same] at undefined
    cases (confidence_undefined undefined key inputs).symm.trans defined
  · intro given
    rw [← same] at positive spread least declared given
    cases weight : estimator.config.priorWeight with
    | undefined => exact absurd weight given
    | number prior =>
      rw [weight, zero_eq, le_number, not_le] at positive
      exact usable_estimate (validate_model models rfl key) mean (share_weight weight positive key)
        spread declared least inputs

def unweighted : EngineConfig Extended :=
  { EngineConfig.standard with
    estimator := { EstimatorConfig.standard with priorWeight := .undefined } }

def once (config : EngineConfig Extended) : Estimator Extended :=
  (create (fun _ => .ok (some (.ofTimes Quantity.one Quantity.zero))) config.estimator).after
    [[⟨0, "grown", .main, some "local.filter.main", none, some ⟨.number 2, 100, 10, 640⟩, none⟩]]

/-- Without a prior weight the standard configuration is accepted as it is with one, but only with
one its estimates can be used. -/
theorem usable_estimate_iff_unweighted :
    (unweighted.validate = .ok () ∧
      ¬ ((once unweighted).estimate "local.filter.main" [⟨some 100, some 10⟩]).Usable) ∧
    (EngineConfig.standard : EngineConfig Extended).validate = .ok () ∧
      ((once .standard).estimate "local.filter.main" [⟨some 100, some 10⟩]).Usable := by
  have estimates (config : EngineConfig Extended) (accepted : config.validate = .ok ()) :
      ((once config).estimate "local.filter.main" [⟨some 100, some 10⟩]).Usable ↔
        config.estimator.priorWeight ≠ .undefined := by
    refine usable_estimate_iff accepted ?_ ?_ _ _
    · rintro _ _ ⟨⟩
      rfl
    · simp only [List.mem_singleton, forall_eq]
      rintro _ ⟨⟩
      exact ⟨2, rfl⟩
  exact ⟨⟨rfl, fun usable => (estimates unweighted rfl).mp usable rfl⟩, rfl,
    (estimates .standard rfl).mpr (by decide)⟩

end Estimator

end CrossPlan
