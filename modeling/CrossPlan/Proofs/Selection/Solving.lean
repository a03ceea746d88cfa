import CrossPlan.Proofs.Selection.Assignment

/-!
# What is selected has the score that it is given

Both searches go from branch to branch by placing candidates.  The selection of a branch leads to
the assignment of the branch, so what they return is a valid selection with its score.
-/

set_option autoImplicit false

namespace CrossPlan

open Sequence

namespace Problem

variable {α : Type} [Quantity α] {problem : Problem α}

/-- A branch whose candidates lead to its assignment, and fill all but the places ahead. -/
structure Reached (problem : Problem α) (ahead : List Nat) (branch : Branch α) : Prop where
  placed : branch.chosen.foldlM (fun assigned candidate =>
    (problem.place? candidate assigned).map (·.2)) problem.unassigned = some branch.assigned
  filled : ∀ place < problem.order.length, place ∉ ahead →
    (branch.assigned.getD place none).isSome = true
  within : ∀ place ∈ ahead, place < problem.order.length

def Search.Sound (problem : Problem α) (search : Search α) : Prop :=
  ∀ best, search.best = some best → problem.score? best.selection = some best.score

omit [Quantity α] in
theorem placement?_iff {branch : Branch α} {place : Nat} {placement : Placement α} :
    problem.placement? branch place = some placement ↔
      ∃ candidate places assigned, problem.candidates[place]? = some candidate ∧
        problem.place? place branch.assigned = some (places, assigned) ∧
        placement = ⟨place, candidate, assigned,
          problem.completed assigned branch.counted places⟩ := by
  simp only [placement?, Option.bind_eq_bind, Option.bind_eq_some_iff, Option.pure_def,
    Option.some.injEq]
  constructor
  · rintro ⟨candidate, found, ⟨places, assigned⟩, placed, rfl⟩
    exact ⟨candidate, places, assigned, found, placed, rfl⟩
  · rintro ⟨candidate, places, assigned, found, placed, rfl⟩
    exact ⟨candidate, found, (places, assigned), placed, rfl⟩

namespace Reached

variable {branch : Branch α} {place : Nat} {rest : List Nat}

theorem start : problem.Reached problem.places ⟨problem.unassigned, [], [], Quantity.zero⟩ where
  placed := rfl
  filled := fun _ within ahead => absurd (List.mem_range.mpr within) ahead
  within := fun _ => List.mem_range.mp

theorem fills (reached : problem.Reached rest branch) (prepared : problem.Prepared) :
    problem.Fills branch.assigned branch.chosen := by
  have fills := Fills.unassigned.foldlM prepared reached.placed
  rwa [List.nil_append] at fills

omit [Quantity α] in
theorem skip (reached : problem.Reached (place :: rest) branch)
    (taken : (branch.assigned.getD place none).isSome = true) : problem.Reached rest branch where
  placed := reached.placed
  filled := by
    intro other within ahead
    by_cases same : other = place
    · rw [same]
      exact taken
    · exact reached.filled other within (by simp [same, ahead])
  within := fun other later => reached.within other (List.mem_cons_of_mem _ later)

theorem after (reached : problem.Reached (place :: rest) branch) (prepared : problem.Prepared)
    {candidate : Nat} (covers : problem.Covers candidate place) {placement : Placement α}
    (placed : problem.placement? branch candidate = some placement) (cost : α) :
    problem.Reached rest (branch.after placement cost) := by
  obtain ⟨_, places, assigned, -, step, rfl⟩ := placement?_iff.mp placed
  obtain ⟨-, keeps, covered, -, value⟩ := (reached.fills prepared).place prepared step
  refine ⟨?_, ?_, fun other later => reached.within other (List.mem_cons_of_mem _ later)⟩
  · rw [Branch.after, List.foldlM_append, reached.placed]
    simp only [List.foldlM_cons, List.foldlM_nil, Option.bind_eq_bind, Option.bind_some,
      Option.pure_def, step, Option.map_some]
  · intro other within ahead
    by_cases same : other = place
    · rw [Branch.after, same, value, if_pos ((covered place).mpr covers)]
      rfl
    · obtain ⟨taken, held⟩ := Option.isSome_iff_exists.mp
        (reached.filled other within (by simp [same, ahead]))
      rw [Branch.after, keeps other taken held]
      rfl

theorem assignment? (reached : problem.Reached [] branch) (prepared : problem.Prepared) :
    problem.assignment? branch.chosen = some (branch.assigned.filterMap id) := by
  rw [assignment?_iff, reached.placed, ← eq_map_of_filled]
  intro place within
  rw [(reached.fills prepared).length] at within
  exact reached.filled place within List.not_mem_nil

theorem score? (reached : problem.Reached [] branch) (prepared : problem.Prepared) {score : Score α}
    (scored : problem.scoreOf (branch.assigned.filterMap id) = .ok score) :
    problem.score? branch.chosen = some score := by
  rw [Problem.score?, reached.assignment? prepared, Option.bind_some, scored]
  rfl

end Reached

/-! ## Exhaustive search -/

def attempt (problem : Problem α) (rest : List Nat) (branch : Branch α) (search : Search α)
    (placement : Placement α) : Search α :=
  match problem.grow branch placement with
  | .error failure => { search with failure := some failure }
  | .ok next =>
    if search.excludes (problem.bound? next) then search else problem.descend rest next search

theorem descend_taken {place : Nat} {rest : List Nat} {branch : Branch α} {search : Search α}
    (taken : (branch.assigned.getD place none).isSome = true) :
    problem.descend (place :: rest) branch search = problem.descend rest branch search := by
  rw [descend, if_pos taken]

theorem descend_free {place : Nat} {rest : List Nat} {branch : Branch α} {search : Search α}
    (free : ¬ (branch.assigned.getD place none).isSome = true) :
    problem.descend (place :: rest) branch search =
      match (problem.covering.getD place []).filterMap (problem.placement? branch) with
      | [] => search.stuckAt place
      | placements => placements.foldl (problem.attempt rest branch) search := by
  rw [descend, if_neg free]
  rfl

theorem grow_ok {branch next : Branch α} {placement : Placement α}
    (success : problem.grow branch placement = .ok next) :
    ∃ cost, next = branch.after placement cost ∧
      problem.addGroups placement.assigned (branch.cost + placement.candidate.cost)
        placement.completed = .ok cost := by
  obtain ⟨cost, added, success⟩ := bind_ok_iff.mp success
  cases success
  exact ⟨cost, rfl, added⟩

/-- What a search keeps of its branches: it passes by the places that are taken, and places a
candidate that is tried at the next one. -/
structure Advances (problem : Problem α) (holds : List Nat → Branch α → Prop) : Prop where
  skip : ∀ place rest branch, holds (place :: rest) branch →
    (branch.assigned.getD place none).isSome = true → holds rest branch
  after : ∀ place rest branch candidate placement cost, holds (place :: rest) branch →
    candidate ∈ problem.covering.getD place [] →
    problem.placement? branch candidate = some placement → holds rest (branch.after placement cost)

theorem Reached.advances (prepared : problem.Prepared) : problem.Advances problem.Reached where
  skip := fun _ _ _ reached taken => reached.skip taken
  after := fun _ _ _ _ _ cost reached tried placed =>
    reached.after prepared (prepared.mem_covering.mp tried) placed cost

/-- What holds of complete branches holds of the best selection found. -/
theorem Advances.descend {holds : List Nat → Branch α → Prop} (advances : problem.Advances holds)
    {good : Solution α → Prop}
    (finish : ∀ branch score, holds [] branch →
      problem.scoreOf (branch.assigned.filterMap id) = .ok score → good ⟨branch.chosen, score⟩)
    {ahead : List Nat} {branch : Branch α} {search : Search α} (held : holds ahead branch)
    (sound : ∀ best, search.best = some best → good best) :
    ∀ best, (problem.descend ahead branch search).best = some best → good best := by
  induction ahead generalizing branch search with
  | nil =>
    rw [Problem.descend, Search.finish]
    split
    · exact sound
    · next score scored =>
      split
      · intro best same
        cases same
        exact finish branch score held scored
      · exact sound
  | cons place rest ih =>
    by_cases taken : (branch.assigned.getD place none).isSome = true
    · rw [descend_taken taken]
      exact ih (advances.skip place rest branch held taken) sound
    · rw [descend_free taken]
      split
      · exact sound
      · refine List.foldlRecOn (motive := fun search : Search α =>
          ∀ best, search.best = some best → good best) _ _ sound ?_
        intro search sound placement offered
        obtain ⟨candidate, tried, placed⟩ := List.mem_filterMap.mp offered
        unfold attempt
        split
        · exact sound
        · next next grown =>
          obtain ⟨cost, rfl, -⟩ := grow_ok grown
          split
          · exact sound
          · exact ih (advances.after place rest branch candidate placement cost held tried placed)
              sound

theorem sound_descend (prepared : problem.Prepared) {ahead : List Nat} {branch : Branch α}
    {search : Search α} (reached : problem.Reached ahead branch) (sound : search.Sound problem) :
    (problem.descend ahead branch search).Sound problem :=
  (Reached.advances prepared).descend
    (fun _ _ reached scored => reached.score? prepared scored) reached sound

theorem score?_of_exhaustive (prepared : problem.Prepared) {solution : Solution α}
    (success : problem.exhaustive = .ok solution) :
    problem.score? solution.selection = some solution.score := by
  simp only [exhaustive] at success
  split at success
  · next best held =>
    cases success
    exact sound_descend prepared .start (fun _ none => by cases none) _ held
  · cases success

/-! ## Greedy search -/

theorem kept_of_chooseFrom {holds : Branch α → Prop} {branch : Branch α}
    {placements : List (Placement α)}
    (after : ∀ placement ∈ placements, ∀ cost, holds (branch.after placement cost))
    {best : Option (Choice α)} (held : ∀ choice, best = some choice → holds choice.branch)
    {failure : Option ChannelFailure} {choice : Choice α}
    (chosen : (problem.chooseFrom branch placements best failure).1 = some choice) :
    holds choice.branch := by
  induction placements generalizing best failure with
  | nil => exact held choice chosen
  | cons placement rest ih =>
    have later := fun other member => after other (List.mem_cons_of_mem _ member)
    rw [chooseFrom] at chosen
    split at chosen
    · exact ih later held chosen
    · next next counted =>
      refine ih later ?_ chosen
      have own : holds next.branch := by
        obtain ⟨_, _, made⟩ := bind_ok_iff.mp counted
        cases made
        exact after placement List.mem_cons_self _
      intro other same
      obtain rfl := Option.some.inj same
      split
      · next earlier =>
        split
        · exact own
        · exact held earlier rfl
      · exact own

theorem Advances.greedyFrom {holds : List Nat → Branch α → Prop} (advances : problem.Advances holds)
    {ahead : List Nat} {branch : Branch α} {failure : Option ChannelFailure} {result : Branch α}
    (held : holds ahead branch) (success : problem.greedyFrom ahead branch failure = .ok result) :
    holds [] result := by
  induction ahead generalizing branch failure with
  | nil =>
    cases success
    exact held
  | cons place rest ih =>
    rw [Problem.greedyFrom] at success
    split at success
    · next taken => exact ih (advances.skip place rest branch held taken) success
    · simp only at success
      split at success
      · next choice _ chosen =>
        refine ih (kept_of_chooseFrom ?_ (by simp) (congrArg Prod.fst chosen)) success
        intro placement offered cost
        obtain ⟨candidate, tried, placed⟩ := List.mem_filterMap.mp offered
        exact advances.after place rest branch candidate placement cost held tried placed
      · cases success
      · cases success

/-- What a problem is solved by comes from a complete branch, whichever way it is searched. -/
theorem Advances.solve {holds : List Nat → Branch α → Prop} (advances : problem.Advances holds)
    (start : holds problem.places ⟨problem.unassigned, [], [], Quantity.zero⟩)
    {solution : Solution α} (success : problem.solve = .ok solution) :
    ∃ branch, holds [] branch ∧ solution.selection = branch.chosen ∧
      problem.scoreOf (branch.assigned.filterMap id) = .ok solution.score := by
  unfold Problem.solve at success
  split at success
  · cases success
  split at success
  · simp only [exhaustive] at success
    split at success
    · next best found =>
      cases success
      let Good (solution : Solution α) : Prop := ∃ branch, holds [] branch ∧
        solution.selection = branch.chosen ∧
          problem.scoreOf (branch.assigned.filterMap id) = .ok solution.score
      have finish : ∀ branch score, holds [] branch →
          problem.scoreOf (branch.assigned.filterMap id) = .ok score →
          Good ⟨branch.chosen, score⟩ :=
        fun branch _ held scored => ⟨branch, held, rfl, scored⟩
      exact advances.descend finish start (fun _ none => by cases none) _ found
    · cases success
  · obtain ⟨branch, filled, success⟩ := bind_ok_iff.mp success
    obtain ⟨score, scored, success⟩ := bind_ok_iff.mp success
    cases success
    exact ⟨branch, advances.greedyFrom start filled, rfl, mapError_ok_iff.mp scored⟩

/-- What a problem is solved by is a valid selection, and has the score that it is given. -/
theorem score?_of_solve (prepared : problem.Prepared) {solution : Solution α}
    (success : problem.solve = .ok solution) :
    problem.score? solution.selection = some solution.score := by
  obtain ⟨branch, reached, same, scored⟩ := (Reached.advances prepared).solve .start success
  rw [same]
  exact reached.score? prepared scored

end Problem

end CrossPlan
