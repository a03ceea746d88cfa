import CrossPlan.Selection.Problem

/-!
# Searching for the best selection

Small problems are searched exhaustively.  The search fills the places in the order of the plan and
leaves a branch when its cost, with the least share for each place that is still free, exceeds that
of the best selection found.  Large problems are solved greedily, place by place.
-/

set_option autoImplicit false

namespace CrossPlan

structure Solution (α : Type) where
  selection : List Nat
  score : Score α

namespace Problem

variable {α : Type} [Quantity α]

open Quantity

/-! ## Completed groups -/

omit [Quantity α] in
/-- Whether all operators that a group touches have a candidate. -/
def isComplete (problem : Problem α) (assigned : Assignment) (place : Nat) : Bool :=
  problem.groups[place]?.any fun group =>
    (problem.chosen? assigned group.producer.operator).isSome &&
      group.consumers.all fun input => (problem.chosen? assigned input.operator).isSome

omit [Quantity α] in
def completed (problem : Problem α) (assigned : Assignment) (counted places : List Nat) :
    List Nat :=
  (places.flatMap fun place => problem.touching.getD place []).eraseDups.filter fun group =>
    !counted.contains group && problem.isComplete assigned group

/-! ## Exhaustive search -/

structure Search (α : Type) where
  best : Option (Solution α)
  /-- the last place for which no candidate was free -/
  stuck : Option Nat
  /-- the last output that could not be handed over -/
  failure : Option ChannelFailure

/-- A choice of candidates for the first places. -/
structure Branch (α : Type) where
  assigned : Assignment
  /-- the groups whose costs are counted -/
  counted : List Nat
  chosen : List Nat
  cost : α

/-- A further candidate of a branch. -/
structure Placement (α : Type) where
  place : Nat
  candidate : Candidate α
  assigned : Assignment
  /-- the groups that are complete with it -/
  completed : List Nat

/-- The placement of a candidate, if the places that it covers are free. -/
def placement? (problem : Problem α) (branch : Branch α) (place : Nat) :
    Option (Placement α) := do
  let candidate ← problem.candidates[place]?
  let (places, assigned) ← problem.place? place branch.assigned
  pure ⟨place, candidate, assigned, problem.completed assigned branch.counted places⟩

omit [Quantity α] in
def Branch.after (branch : Branch α) (placement : Placement α) (cost : α) : Branch α :=
  ⟨placement.assigned, branch.counted ++ placement.completed,
    branch.chosen ++ [placement.place], cost⟩

/-- A branch after a placement, with the costs that it adds. -/
def grow (problem : Problem α) (branch : Branch α) (placement : Placement α) :
    Except ChannelFailure (Branch α) := do
  let cost := branch.cost + placement.candidate.cost
  pure (branch.after placement (← problem.addGroups placement.assigned cost placement.completed))

/-- The least cost that a branch can end with, if there is a bound. -/
def bound? (problem : Problem α) (branch : Branch α) : Option α :=
  let free := (branch.assigned.zip problem.lowerShare).filterMap fun (chosen, share) =>
    if chosen.isNone then some share else none
  (free.mapM id).map fun shares => branch.cost + sum shares

namespace Search

def empty : Search α := ⟨none, none, none⟩

/-- Whether a branch can end in nothing better than what was found. -/
def excludes (search : Search α) (bound : Option α) : Bool :=
  match search.best, bound with
  | some best, some bound => lt best.score.cost bound && !sameCost bound best.score.cost
  | _, _ => false

omit [Quantity α] in
def stuckAt (search : Search α) (place : Nat) : Search α :=
  { search with stuck := some (max place (search.stuck.getD 0)) }

def finish (problem : Problem α) (search : Search α) (branch : Branch α) : Search α :=
  match problem.scoreOf (branch.assigned.filterMap id) with
  | .error failure => { search with failure := some failure }
  | .ok score =>
    if search.best.all fun best => score.order best.score == .lt then
      { search with best := some ⟨branch.chosen, score⟩ }
    else search

end Search

/-- Searches a branch whose places are filled up to the given ones. -/
def descend (problem : Problem α) : List Nat → Branch α → Search α → Search α
  | [], branch, search => search.finish problem branch
  | place :: rest, branch, search =>
    if (branch.assigned.getD place none).isSome then problem.descend rest branch search
    else
      match (problem.covering.getD place []).filterMap (problem.placement? branch) with
      | [] => search.stuckAt place
      | placements => placements.foldl (fun search placement =>
          match problem.grow branch placement with
          | .error failure => { search with failure := some failure }
          | .ok branch =>
            if search.excludes (problem.bound? branch) then search
            else problem.descend rest branch search) search

def places (problem : Problem α) : List Nat := List.range problem.order.length

/-- Why a search found nothing. -/
def Search.error (problem : Problem α) (search : Search α) : OptimizeError :=
  match search.failure with
  | some failure => failure.toError
  | none => .unsatisfiable (search.stuck.toList.map problem.nameAt)

def exhaustive (problem : Problem α) : Except OptimizeError (Solution α) :=
  let search := problem.descend problem.places ⟨problem.unassigned, [], [], zero⟩ .empty
  match search.best with
  | some solution => .ok solution
  | none => .error (search.error problem)

/-! ## Greedy search -/

/-- A candidate for one place, with its share of the costs that it adds. -/
structure Choice (α : Type) where
  share : α
  rank : Nat
  branch : Branch α

/-- The choice of a candidate; its share counts what it costs to hand over what it completes. -/
def choice (problem : Problem α) (branch : Branch α) (placement : Placement α) :
    Except ChannelFailure (Choice α) := do
  let channels ← problem.addGroups placement.assigned zero placement.completed
  let candidate := placement.candidate
  pure ⟨share candidate (candidate.cost + channels), problem.config.rank candidate.platform,
    branch.after placement zero⟩

def Choice.better (next best : Choice α) : Bool :=
  if sameCost next.share best.share then next.rank < best.rank else lt next.share best.share

/-- The best choice for a place, and the last output that could not be handed over. -/
def chooseFrom (problem : Problem α) (branch : Branch α) :
    List (Placement α) → Option (Choice α) → Option ChannelFailure →
      Option (Choice α) × Option ChannelFailure
  | [], best, failure => (best, failure)
  | candidate :: rest, best, failure =>
    match problem.choice branch candidate with
    | .error failure => problem.chooseFrom branch rest best (some failure)
    | .ok next =>
      let best := match best with
        | some held => if next.better held then next else held
        | none => next
      problem.chooseFrom branch rest (some best) failure

def greedyFrom (problem : Problem α) :
    List Nat → Branch α → Option ChannelFailure → Except OptimizeError (Branch α)
  | [], branch, _ => .ok branch
  | place :: rest, branch, failure =>
    if (branch.assigned.getD place none).isSome then problem.greedyFrom rest branch failure
    else
      let placements := (problem.covering.getD place []).filterMap (problem.placement? branch)
      match problem.chooseFrom branch placements none failure with
      | (some choice, failure) => problem.greedyFrom rest choice.branch failure
      | (none, some failure) => .error failure.toError
      | (none, none) => .error (.unsatisfiable [problem.nameAt place])

/-- The selection that takes for each place the candidate with the least share. -/
def greedy (problem : Problem α) : Except OptimizeError (Solution α) := do
  let branch ← problem.greedyFrom problem.places ⟨problem.unassigned, [], [], zero⟩ none
  let score ← (problem.scoreOf (branch.assigned.filterMap id)).mapError ChannelFailure.toError
  pure ⟨branch.chosen, score⟩

/-- The selection for a problem: the best one if the problem is small enough to be searched. -/
def solve (problem : Problem α) : Except OptimizeError (Solution α) :=
  if !problem.uncovered.isEmpty then .error (.unsatisfiable problem.uncovered)
  else if problem.candidates.length ≤ problem.config.exhaustiveLimit then problem.exhaustive
  else problem.greedy

end Problem

end CrossPlan
