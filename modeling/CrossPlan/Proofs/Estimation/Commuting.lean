import CrossPlan.Proofs.Estimation.History
import CrossPlan.Proofs.Estimation.Loads
import CrossPlan.Proofs.Quantity
import Mathlib.Algebra.BigOperators.Finprod

/-!
# Calibration does not depend on order

A sample is told from its node alone, and what is held of a key is a number and a sum.  So runs can
be split and their nodes exchanged without a trace.  Each node that is taken in counts once, for one
key, and a key without such nodes is left as it was.
-/

set_option autoImplicit false

namespace CrossPlan.Estimator

open Quantity

variable {α : Type} [Quantity α] {estimator other : Estimator α} {key : String}
  {runs others : List (List (LineageNode α))}

def absorbed {α : Type} [Quantity α] (estimator : Estimator α) :
    List (List (LineageNode α)) → Nat
  | [] => 0
  | nodes :: rest => (estimator.calibrate nodes).2 + (estimator.calibrate nodes).1.absorbed rest

/-- A node is taken in under a key: it has this key and a cost, and the time declared for its size
is not too small to compare with. -/
def Absorbs (estimator : Estimator α) (node : LineageNode α) (key : String) : Prop :=
  node.costKey = some key ∧ ∃ realized, node.realized = some realized ∧
    let (rows, bytes) := sizing estimator.config node.phase realized
    ¬ le ((estimator.model key).timeMs rows bytes) leastDeclared = true

theorem absorbs_iff {node : LineageNode α} : estimator.Absorbs node key ↔
    ∃ ratio, estimator.sample? node = some (key, ratio) := by
  simp only [Absorbs, sample?, Option.bind_eq_bind, Option.bind_eq_some_iff]
  constructor
  · rintro ⟨named, realized, spent, enough⟩
    exact ⟨_, key, named, realized, spent, if_neg enough⟩
  · rintro ⟨ratio, name, named, realized, spent, taken⟩
    split at taken
    · cases taken
    · next enough =>
      cases taken
      exact ⟨named, realized, spent, enough⟩

theorem absorbed_eq (runs : List (List (LineageNode α))) :
    estimator.absorbed runs = (runs.flatten.filterMap estimator.sample?).length := by
  induction runs generalizing estimator with
  | nil => rfl
  | cons nodes rest ih =>
    rw [absorbed, calibrate, ih, sample?_foldl_observe, List.flatten_cons,
      List.filterMap_append, List.length_append]

theorem ratios_perm (same : runs.flatten.Perm others.flatten) (key : String) :
    (estimator.ratios runs key).Perm (estimator.ratios others key) :=
  ((same.filterMap _).filter _).map _

theorem samples_rise (runs : List (List (LineageNode α))) (key : String) :
    (estimator.after runs).samples key =
      estimator.samples key + (estimator.ratios runs key).length := by
  rw [samples_eq, held_after, samples_eq]

/-- An estimate depends on what was declared and on what was observed of its key. -/
theorem estimate_congr (source : other.source = estimator.source)
    (config : other.config = estimator.config)
    (seen : other.observations key = estimator.observations key) (inputs : List Statistics) :
    other.estimate key inputs = estimator.estimate key inputs := by
  have declared : other.declared? key = estimator.declared? key := by
    rw [declared?, source]
    rfl
  have samples : other.samples key = estimator.samples key := by
    rw [samples_eq, seen, samples_eq]
  have weight : other.weight key = estimator.weight key := by
    rw [Estimator.weight, samples, config]
    rfl
  simp only [estimate, confidence, model, scale, declared, weight, seen, config]

theorem ratios_eq_nil_iff : estimator.ratios runs key = [] ↔
    ∀ node ∈ runs.flatten, ¬ estimator.Absorbs node key := by
  rw [ratios, ratiosOf, List.map_eq_nil_iff, List.filter_eq_nil_iff]
  constructor
  · intro none node present absorbs
    obtain ⟨ratio, taken⟩ := absorbs_iff.mp absorbs
    exact none _ (List.mem_filterMap.mpr ⟨node, present, taken⟩) (beq_self_eq_true key)
  · rintro none ⟨name, ratio⟩ listed same
    obtain ⟨node, present, taken⟩ := List.mem_filterMap.mp listed
    obtain rfl := beq_iff_eq.mp same
    exact none node present (absorbs_iff.mpr ⟨ratio, taken⟩)

theorem length_ratios (runs : List (List (LineageNode α))) (key : String) :
    (estimator.ratios runs key).length =
      ((runs.flatten.filterMap estimator.sample?).map (·.1)).count key := by
  rw [ratios, ratiosOf, List.length_map, List.count, List.countP_map, List.countP_eq_length_filter]
  rfl

theorem risen_iff : estimator.samples key < (estimator.after runs).samples key ↔
    ∃ node ∈ runs.flatten, estimator.Absorbs node key := by
  rw [samples_rise, Nat.lt_add_right_iff_pos, List.length_pos_iff, Ne, ratios_eq_nil_iff]
  simp only [not_forall, not_not, exists_prop]

/-- What runs leave does not depend on how they are split and ordered. -/
theorem held_perm (exact : Exact α) (same : runs.flatten.Perm others.flatten) (key : String) :
    (estimator.after runs).observations key = (estimator.after others).observations key := by
  have shuffled : (estimator.ratios runs key).Perm (estimator.ratios others key) :=
    ratios_perm same key
  rw [held_after, held_after, shuffled.length_eq, exact.foldl, exact.foldl, exact.sum_perm shuffled]

theorem samples_perm (exact : Exact α) (same : runs.flatten.Perm others.flatten) (key : String) :
    (estimator.after runs).samples key = (estimator.after others).samples key := by
  rw [samples_eq, held_perm exact same, samples_eq]

theorem estimate_perm (exact : Exact α) (same : runs.flatten.Perm others.flatten) (key : String)
    (inputs : List Statistics) :
    (estimator.after runs).estimate key inputs = (estimator.after others).estimate key inputs := by
  refine estimate_congr ?_ ?_ (held_perm exact same key) inputs
  · rw [source_after, source_after]
  · rw [config_after, config_after]

theorem absorbed_perm (same : runs.flatten.Perm others.flatten) :
    estimator.absorbed runs = estimator.absorbed others := by
  rw [absorbed_eq, absorbed_eq, (same.filterMap _).length_eq]

/-- The books of some runs: which counts they raise, by how much in all, and what they leave. -/
structure Accounts (estimator : Estimator α) (runs : List (List (LineageNode α))) : Prop where
  grows : ∀ key, estimator.samples key ≤ (estimator.after runs).samples key
  risen : ∀ key, estimator.samples key < (estimator.after runs).samples key ↔
    ∃ node ∈ runs.flatten, estimator.Absorbs node key
  finite : {key | estimator.samples key < (estimator.after runs).samples key}.Finite
  total : estimator.absorbed runs =
    ∑ᶠ key, ((estimator.after runs).samples key - estimator.samples key)
  left : ∀ key, (∀ node ∈ runs.flatten, ¬ estimator.Absorbs node key) →
    ∀ inputs, (estimator.after runs).estimate key inputs = estimator.estimate key inputs

theorem accounts (estimator : Estimator α) (runs : List (List (LineageNode α))) :
    estimator.Accounts runs := by
  let keys := (runs.flatten.filterMap estimator.sample?).map (·.1)
  have rise (key : String) :
      (estimator.after runs).samples key - estimator.samples key = keys.count key := by
    rw [samples_rise, Nat.add_sub_cancel_left, length_ratios]
  have listed (key : String) (counted : keys.count key ≠ 0) : key ∈ keys.toFinset :=
    List.mem_toFinset.mpr (List.count_pos_iff.mp (Nat.pos_of_ne_zero counted))
  refine ⟨fun key => ?_, fun key => risen_iff, ?_, ?_, fun key none inputs => ?_⟩
  · rw [samples_rise]
    exact Nat.le_add_right _ _
  · refine keys.toFinset.finite_toSet.subset fun key more => listed key ?_
    rw [← rise]
    exact Nat.sub_ne_zero_of_lt more
  · simp only [rise]
    rw [finsum_eq_sum_of_support_subset _ fun key counted => listed key counted,
      List.sum_toFinset_count_eq_length, absorbed_eq, List.length_map]
  · refine estimate_congr (source_after runs) (config_after runs) ?_ inputs
    rw [held_after, ratios_eq_nil_iff.mpr none]
    rfl

/-- With exact numbers it plays no part how nodes are split into runs and in which order they come:
they give the same estimates and as many samples, of each key and in all.  The samples are those by
which the counts rise, and where no node gives a sample of a key, its estimates stay. -/
theorem calibration_commutes (estimator : Estimator Rat) (runs : List (List (LineageNode Rat))) :
    (∀ others : List (List (LineageNode Rat)), runs.flatten.Perm others.flatten →
      estimator.absorbed runs = estimator.absorbed others ∧
      (∀ key, (estimator.after runs).samples key = (estimator.after others).samples key) ∧
      ∀ key inputs, (estimator.after runs).estimate key inputs =
        (estimator.after others).estimate key inputs) ∧
    estimator.Accounts runs :=
  ⟨fun _ same => ⟨absorbed_perm same, samples_perm exact_rat same, estimate_perm exact_rat same⟩,
    accounts estimator runs⟩

def filtersOnly : SpecSource Rat := fun key =>
  if key = "local.filter.main" then .ok (some (.linear 1 (1 / 100) 0 2 3))
  else if key = "local.sink.main" then .error (.unavailable "offline")
  else .ok none

def filteredRun : List (LineageNode Rat) :=
  [⟨0, "grown", .prepare, some "local.filter.main", none, some ⟨1 / 2, 100, 0, 0⟩, none⟩,
    ⟨0, "grown", .main, some "local.filter.main", none, some ⟨6, 100, 10, 640⟩, none⟩,
    ⟨0, "grown", .channel, none, none, some ⟨0, 10, 10, 640⟩, some 1⟩,
    ⟨1, "out", .prepare, some "local.sink.prepare", none, some ⟨1, 10, 0, 0⟩, none⟩,
    ⟨1, "out", .main, some "local.sink.main", none, some ⟨1, 10, 10, 640⟩, none⟩,
    .bare 2 "late" .main]

/-- Three of the nodes are taken in, together or one by one from the last.  Those without a key,
without a cost or without a declared time are not. -/
theorem calibration_commutes_filteredRun :
    let estimator := create filtersOnly (EngineConfig.standard : EngineConfig Rat).estimator
    let backwards := filteredRun.reverse.map fun node => [node]
    estimator.absorbed [filteredRun] = 3 ∧ estimator.absorbed backwards = 3 ∧
      (estimator.after backwards).samples "local.filter.main" = 2 ∧
      (estimator.after backwards).estimate "local.filter.main" [⟨some 100, some 10⟩] =
        (estimator.after [filteredRun]).estimate "local.filter.main" [⟨some 100, some 10⟩] ∧
      (estimator.after [filteredRun]).estimate "local.sink.prepare" [] =
        estimator.estimate "local.sink.prepare" [] := by
  intro estimator backwards
  have shuffled : [filteredRun].flatten.Perm backwards.flatten :=
    (List.reverse_perm filteredRun).symm
  obtain ⟨commutes, accounts⟩ := calibration_commutes estimator [filteredRun]
  obtain ⟨total, samples, estimates⟩ := commutes backwards shuffled
  have three : estimator.absorbed [filteredRun] = 3 := by decide +kernel
  have two : (estimator.after [filteredRun]).samples "local.filter.main" = 2 := by decide +kernel
  refine ⟨three, total.symm.trans three, (samples _).symm.trans two, (estimates _ _).symm, ?_⟩
  refine accounts.left "local.sink.prepare" (fun node present absorbs => ?_) []
  obtain ⟨ratio, taken⟩ := absorbs_iff.mp absorbs
  have none : ∀ node ∈ [filteredRun].flatten,
      (estimator.sample? node).all (·.1 != "local.sink.prepare") = true := by decide +kernel
  simpa [taken] using none node present

end CrossPlan.Estimator
