import CrossPlan.Proofs.Quantity
import CrossPlan.Proofs.Selection.Assignment

/-!
# What it costs to hand over an output

How a group is handed over depends on the candidates of the operators that it touches and on nothing
else.  In exact arithmetic it never costs less than nothing.
-/

set_option autoImplicit false

namespace CrossPlan

open Sequence

namespace Problem

variable {α : Type} {problem : Problem α} {assigned full : Assignment}

theorem isComplete_iff {place : Nat} :
    problem.isComplete assigned place = true ↔
      ∃ group, problem.groups[place]? = some group ∧
        (problem.chosen? assigned group.producer.operator).isSome = true ∧
        ∀ input ∈ group.consumers, (problem.chosen? assigned input.operator).isSome = true := by
  unfold isComplete
  cases problem.groups[place]? <;> simp

theorem chosen?_of_keeps (keeps : Keeps full assigned) {id : Nat}
    (chosen : (problem.chosen? assigned id).isSome = true) :
    problem.chosen? full id = problem.chosen? assigned id := by
  obtain ⟨candidate, held⟩ := Option.isSome_iff_exists.mp chosen
  rw [held]
  simp only [chosen?, Option.bind_eq_some_iff] at held ⊢
  obtain ⟨place, index, held⟩ := held
  exact ⟨place, index, keeps place candidate held⟩

theorem outsideConsumers_congr {group : OutputGroup} (producer : Nat)
    (same : ∀ input ∈ group.consumers,
      problem.chosen? full input.operator = problem.chosen? assigned input.operator) :
    problem.outsideConsumers full group producer =
      problem.outsideConsumers assigned group producer := by
  unfold outsideConsumers
  rw [mapM_congr fun input member => by rw [same input member]]

theorem isComplete_of_keeps (keeps : Keeps full assigned) {place : Nat}
    (complete : problem.isComplete assigned place = true) :
    problem.isComplete full place = true := by
  obtain ⟨group, found, producer, consumers⟩ := isComplete_iff.mp complete
  refine isComplete_iff.mpr ⟨group, found, ?_, fun input member => ?_⟩
  · rw [chosen?_of_keeps keeps producer]
    exact producer
  · rw [chosen?_of_keeps keeps (consumers input member)]
    exact consumers input member

variable [Quantity α]

theorem handOver_congr {group : OutputGroup} (costs : List α)
    (producer : problem.chosen? full group.producer.operator =
      problem.chosen? assigned group.producer.operator)
    (consumers : ∀ input ∈ group.consumers,
      problem.chosen? full input.operator = problem.chosen? assigned input.operator) :
    problem.handOver full group costs = problem.handOver assigned group costs := by
  unfold handOver
  rw [producer]
  simp only [outsideConsumers_congr _ consumers]

/-- How a complete group is handed over stays when more candidates are chosen. -/
theorem outcome_of_keeps (keeps : Keeps full assigned) {place : Nat}
    (complete : problem.isComplete assigned place = true) :
    problem.outcome full place = problem.outcome assigned place := by
  obtain ⟨group, found, producer, consumers⟩ := isComplete_iff.mp complete
  unfold outcome
  rw [found]
  cases problem.conversionCosts[place]? with
  | none => rfl
  | some costs =>
    exact handOver_congr costs (chosen?_of_keeps keeps producer)
      fun input member => chosen?_of_keeps keeps (consumers input member)

theorem handOver_some {group : OutputGroup} {costs : List α} {outcome : GroupOutcome α}
    (success : problem.handOver assigned group costs = .ok (some outcome)) :
    ∃ produced consumers,
      resolveGroup produced consumers (stepCost costs) = .ok outcome.routes := by
  unfold handOver at success
  dsimp only at success
  split at success
  · cases success
  obtain ⟨outside, -, success⟩ := bind_ok_iff.mp success
  split at success
  · cases success
  obtain ⟨⟨producer, source⟩, -, success⟩ := bind_ok_iff.mp success
  obtain ⟨consumers, -, success⟩ := bind_ok_iff.mp success
  split at success
  · next routes resolved =>
    cases success
    exact ⟨_, _, resolved⟩
  · cases success

def costAt (problem : Problem α) (assigned : Assignment) (place : Nat) : α :=
  match problem.outcome assigned place with
  | .ok outcome => outcomeCost outcome
  | .error _ => Quantity.zero

end Problem

namespace Problem

variable {problem : Problem Rat} {assigned full : Assignment}

theorem costAt_nonneg (place : Nat) : 0 ≤ problem.costAt assigned place := by
  unfold costAt
  split
  · next found handed =>
    cases found with
    | none => exact le_rfl
    | some held =>
      unfold outcome at handed
      split at handed
      · obtain ⟨produced, consumers, resolved⟩ := handOver_some handed
        exact resolveGroup_nonneg resolved
      · cases handed
  · exact le_rfl

theorem addGroups_ok {places : List Nat} {start total : Rat} :
    problem.addGroups assigned start places = .ok total ↔
      (∀ place ∈ places, ∃ found, problem.outcome assigned place = .ok found) ∧
        total = start + (places.map (problem.costAt assigned)).sum := by
  unfold addGroups
  induction places generalizing start with
  | nil => simp [pure, Except.pure, eq_comm]
  | cons place rest ih =>
    rw [List.foldlM_cons, bind_ok_iff, List.forall_mem_cons, List.map_cons, List.sum_cons]
    constructor
    · rintro ⟨next, added, later⟩
      obtain ⟨found, handed, added⟩ := bind_ok_iff.mp added
      cases added
      obtain ⟨all, rfl⟩ := ih.mp later
      refine ⟨⟨⟨found, handed⟩, all⟩, ?_⟩
      rw [costAt, handed]
      exact add_assoc _ _ _
    · rintro ⟨⟨⟨found, handed⟩, all⟩, rfl⟩
      refine ⟨start + outcomeCost found, by rw [handed]; rfl, ih.mpr ⟨all, ?_⟩⟩
      rw [costAt, handed]
      exact (add_assoc _ _ _).symm

end Problem

end CrossPlan
