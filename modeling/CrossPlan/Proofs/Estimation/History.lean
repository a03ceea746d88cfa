import CrossPlan.Estimation.Estimator
import CrossPlan.Proofs.Sequence

/-!
# What runs leave in an estimator

Runs change nothing in an estimator but what it has observed.  Which samples a run gives follows
from the declared models and the configuration, so that earlier runs have no part in it; and what is
held of a key in the end is the number of its samples and the sum of their ratios.
-/

set_option autoImplicit false

namespace CrossPlan

variable {α : Type} [Quantity α]

open Quantity

theorem Observations.foldl_add (ratios : List α) (seen : Observations α) :
    ratios.foldl add seen =
      ⟨seen.samples + ratios.length, ratios.foldl (· + ·) seen.ratioSum⟩ := by
  induction ratios generalizing seen with
  | nil => rfl
  | cons ratio rest ih =>
    rw [List.foldl_cons, ih, add, List.foldl_cons, List.length_cons, Nat.add_right_comm,
      Nat.add_assoc]

namespace Estimator

def after {α : Type} [Quantity α] (estimator : Estimator α) (runs : List (List (LineageNode α))) :
    Estimator α :=
  runs.foldl (fun estimator nodes => (estimator.calibrate nodes).1) estimator

def ratiosOf (key : String) (samples : List (String × α)) : List α :=
  (samples.filter (·.1 == key)).map (·.2)

def ratios (estimator : Estimator α) (runs : List (List (LineageNode α))) (key : String) : List α :=
  ratiosOf key (runs.flatten.filterMap estimator.sample?)

variable {estimator : Estimator α}

theorem samples_eq (key : String) :
    estimator.samples key = (estimator.observations key).samples := by
  rw [samples, observations]
  cases estimator.observed.get? key <;> rfl

theorem observations_observe (key : String) (sample : String × α) :
    (estimator.observe sample).observations key =
      if key = sample.1 then (estimator.observations sample.1).add sample.2
      else estimator.observations key := by
  rw [observe, observations, Table.get?_insert, apply_ite (Option.getD · _)]
  rfl

theorem observations_foldl_observe (key : String) (samples : List (String × α)) :
    (samples.foldl observe estimator).observations key =
      (ratiosOf key samples).foldl Observations.add (estimator.observations key) := by
  induction samples generalizing estimator with
  | nil => rfl
  | cons sample rest ih =>
    rw [List.foldl_cons, ih, observations_observe, ratiosOf]
    by_cases same : key = sample.1
    · subst same
      simp [ratiosOf]
    · simp [ratiosOf, same, Ne.symm same]

theorem foldl_observe_eq (samples : List (String × α)) (estimator : Estimator α) :
    (samples.foldl observe estimator).source = estimator.source ∧
      (samples.foldl observe estimator).config = estimator.config := by
  induction samples generalizing estimator with
  | nil => exact ⟨rfl, rfl⟩
  | cons sample rest ih => exact ih (estimator.observe sample)

theorem sample?_foldl_observe (samples : List (String × α)) :
    (samples.foldl observe estimator).sample? = estimator.sample? := by
  obtain ⟨source, config⟩ := foldl_observe_eq samples estimator
  unfold sample? model declared?
  rw [source, config]

theorem after_eq_foldl (runs : List (List (LineageNode α))) :
    estimator.after runs =
      (runs.flatten.filterMap estimator.sample?).foldl observe estimator := by
  rw [after]
  induction runs generalizing estimator with
  | nil => rfl
  | cons nodes rest ih =>
    rw [List.foldl_cons, ih, calibrate, sample?_foldl_observe, List.flatten_cons,
      List.filterMap_append, List.foldl_append]

theorem source_after (runs : List (List (LineageNode α))) :
    (estimator.after runs).source = estimator.source := by
  rw [after_eq_foldl]
  exact (foldl_observe_eq _ _).1

theorem config_after (runs : List (List (LineageNode α))) :
    (estimator.after runs).config = estimator.config := by
  rw [after_eq_foldl]
  exact (foldl_observe_eq _ _).2

/-- What is held of a key after runs is what was held before, with the ratios that they gave. -/
theorem held_after (runs : List (List (LineageNode α))) (key : String) :
    (estimator.after runs).observations key =
      ⟨(estimator.observations key).samples + (estimator.ratios runs key).length,
        (estimator.ratios runs key).foldl (· + ·) (estimator.observations key).ratioSum⟩ := by
  rw [after_eq_foldl, observations_foldl_observe]
  exact Observations.foldl_add _ _

theorem observations_after {source : SpecSource α} {config : EstimatorConfig α}
    (runs : List (List (LineageNode α))) (key : String) :
    ((create source config).after runs).observations key =
      ⟨((create source config).ratios runs key).length,
        sum ((create source config).ratios runs key)⟩ := by
  rw [held_after, show (create source config).observations key = ⟨0, zero⟩ from rfl, Nat.zero_add]
  rfl

theorem mem_ratios {runs : List (List (LineageNode α))} {key : String} {ratio : α}
    (listed : ratio ∈ estimator.ratios runs key) :
    ∃ nodes ∈ runs, ∃ node ∈ nodes, estimator.sample? node = some (key, ratio) := by
  simp only [ratios, ratiosOf, List.mem_map, List.mem_filter, List.mem_filterMap, List.mem_flatten,
    beq_iff_eq] at listed
  obtain ⟨⟨_, _⟩, ⟨⟨node, ⟨nodes, run, member⟩, taken⟩, rfl⟩, rfl⟩ := listed
  exact ⟨nodes, run, node, member, taken⟩

end Estimator

end CrossPlan
