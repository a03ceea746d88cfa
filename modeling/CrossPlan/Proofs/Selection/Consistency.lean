import CrossPlan.Proofs.Selection.InPlace
import CrossPlan.Proofs.Selection.Realization

/-!
# Solutions are consistent

What a problem is solved by shares out the operators of the plan among its candidates, and has the
score that its selection has on its own, whichever search has found it and in whatever arithmetic
costs are computed.

Nothing is asked of the candidates here; they need not come from rules.
-/

set_option autoImplicit false

namespace CrossPlan.Problem

open Sequence

variable {α : Type} [Quantity α] {problem : Problem α}

/-- A selection whose candidates share out the operators of the plan. -/
structure Partitions (problem : Problem α) (selection : List Nat) : Prop where
  known : ∀ candidate ∈ selection, candidate < problem.candidates.length
  apart : selection.Pairwise fun first second => ∀ id,
    problem.Stands first id → ¬ problem.Stands second id
  whole : ∀ id, id < problem.plan.size ↔ ∃ candidate ∈ selection, problem.Stands candidate id

theorem Reached.partitions {branch : Branch α} (ordered : problem.Ordered)
    (reached : problem.Reached [] branch) (tallied : branch.Tallied) :
    problem.Partitions branch.chosen := by
  have chosen?_iff : ∀ {id candidate : Nat}, problem.chosen? branch.assigned id = some candidate ↔
      candidate ∈ branch.chosen ∧ problem.Stands candidate id := by
    intro id candidate
    rw [reached.whole.chosen?_iff, tallied.held]
  refine ⟨fun candidate listed => ?_, ?_, fun id => ⟨fun known => ?_, ?_⟩⟩
  · obtain ⟨place, held⟩ := (tallied.held candidate).mp listed
    exact (Prepared.covers_lt (ordered.covers_of_holds reached.whole held)).1
  · refine tallied.distinct.imp_of_mem fun {first second} listed listed' different id stands both =>
      different ?_
    have here := chosen?_iff.mpr ⟨listed, stands⟩
    exact Option.some.inj (here.symm.trans (chosen?_iff.mpr ⟨listed', both⟩))
  · obtain ⟨candidate, here⟩ := Option.isSome_iff_exists.mp (ordered.chosen?_isSome
      (fun place within => reached.filled place within List.not_mem_nil) known)
    exact ⟨candidate, chosen?_iff.mp here⟩
  · rintro ⟨candidate, listed, stands⟩
    obtain ⟨place, index, -⟩ := Option.bind_eq_some_iff.mp (chosen?_iff.mpr ⟨listed, stands⟩)
    exact (Plan.mem_order ordered.order).mp
      (List.mem_of_getElem? (getElem?_of_idxOf? index))

/-- A solution has candidates that share out the operators of the plan and the score that these have
on their own, and it is found as well by the searches that take back on one desk what they tried. -/
theorem consistent_of_solve {plan : Plan} {candidates : List (Candidate α)}
    {estimator : Estimator α} {known : PlanStatistics} {config : OptimizerConfig α}
    (created : create plan candidates estimator known config = .ok problem)
    {solution : Solution α} (solved : problem.solve = .ok solution) :
    problem.Partitions solution.selection ∧
      problem.score? solution.selection = some solution.score ∧
      problem.solveInPlace = .ok solution := by
  have ordered := ordered_of_create created
  obtain ⟨branch, ⟨reached, tallied⟩, same, scored⟩ :=
    ordered.advances.solve ⟨.start, .start⟩ solved
  rw [same]
  refine ⟨reached.partitions ordered tallied, score?_eq_some.mpr ⟨_, ?_, scored⟩,
    solveInPlace_eq.trans solved⟩
  rw [assignment?_iff, reached.placed, ← reached.complete]

/-- The best of eight selections is consistent. -/
theorem consistent_of_solve_adults : ∃ solution, adultsProblem.solve = .ok solution ∧
    adultsProblem.Partitions solution.selection ∧
    adultsProblem.score? solution.selection = some solution.score ∧
    adultsProblem.solveInPlace = .ok solution := by
  have succeeds : adultsProblem.solve.isOk = true := by decide +kernel
  cases solved : adultsProblem.solve with
  | error error => simp [solved, Except.isOk, Except.toBool] at succeeds
  | ok solution => exact ⟨solution, rfl, consistent_of_solve adults_created solved⟩

end CrossPlan.Problem
