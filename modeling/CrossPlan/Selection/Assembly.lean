import CrossPlan.Execution.Plan
import CrossPlan.Selection.Search

/-!
# From a selection to an execution plan

Each operator of a chosen replacement becomes a task.  The links of a replacement and the outputs
between candidates become junctions.
-/

set_option autoImplicit false

namespace CrossPlan.Problem

variable {α : Type} [Quantity α]

open Quantity

omit [Quantity α] in
/-- The tasks of one candidate, numbered from a start. -/
def tasksOf (candidate : Candidate α) (start : Nat) : List (Task α) :=
  candidate.replacement.operators.zipIdx.map fun (operator, place) =>
    { id := start + place, operator, origin := candidate.covered, candidate := candidate.id
      rule := candidate.ruleName, estimate := candidate.estimates[place]? }

/-- The candidates that are chosen, each with the number of its first task. -/
abbrev TaskNumbers := List (Nat × Nat)

omit [Quantity α] in
/-- The tasks of the chosen candidates in the order of their first places. -/
def assemble (problem : Problem α) (chosen : List Nat) : List (Task α) × TaskNumbers :=
  chosen.foldl (fun (tasks, numbers) place =>
    match problem.candidates[place]? with
    | some candidate =>
      (tasks ++ tasksOf candidate tasks.length, numbers ++ [(place, tasks.length)])
    | none => (tasks, numbers)) ([], [])

/-- The task that stands for a slot of a candidate. -/
def taskSlot (numbers : TaskNumbers) (slot : CandidateSlot) : Except OptimizeError TaskSlot :=
  match numbers.lookup slot.candidate with
  | some start => .ok ⟨start + slot.slot.operator, slot.slot.slot⟩
  | none => .error (.internal ("no task for candidate " ++ toString slot.candidate
      ++ " operator " ++ toString slot.slot.operator))

/-- The junction of an internal link.  Every conversion on it counts the same, and none is paid. -/
def linkJunction (numbers : TaskNumbers) (place : Nat) (replacement : Replacement α) (link : Edge) :
    Except OptimizeError (Junction α) := do
  match replacement.operators[link.source.operator]?,
      replacement.operators[link.target.operator]? with
  | some source, some target =>
    match resolveGroup (source.outputForms link.source.slot)
        [target.inputForms link.target.slot] (fun _ => (one : α)) with
    | .error _ => throw (.noCompatibleChannel source.name target.name)
    | .ok group =>
      pure { producer := ← taskSlot numbers ⟨place, link.source⟩
             form := group.form
             targets := [{ consumer := ← taskSlot numbers ⟨place, link.target⟩
                           conversions := (group.routes.head?.map (·.steps)).getD []
                           crossPlatform := false
                           cost := zero }] }
  | _, _ => throw (.internal "link between missing operators")

def linkJunctions (problem : Problem α) (numbers : TaskNumbers) (place : Nat) :
    Except OptimizeError (List (Junction α)) :=
  match problem.candidates[place]? with
  | some candidate =>
    candidate.replacement.links.mapM (linkJunction numbers place candidate.replacement)
  | none => .ok []

omit [Quantity α] in
/-- The junction of an output that is handed over to other candidates. -/
def groupJunction (numbers : TaskNumbers) (outcome : GroupOutcome α) :
    Except OptimizeError (Junction α) := do
  let targets ← (outcome.consumers.zip outcome.routes.routes).mapM fun ((slot, cross), route) => do
    let consumer ← taskSlot numbers slot
    pure { consumer, conversions := route.steps, crossPlatform := cross, cost := route.cost }
  pure ⟨← taskSlot numbers outcome.producer, outcome.routes.form, targets⟩

def groupJunctions (problem : Problem α) (numbers : TaskNumbers) (assigned : List Nat) :
    Except OptimizeError (List (Junction α)) := do
  let junctions ← (List.range problem.groups.length).mapM fun place => do
    let outcome ← (problem.outcome (assigned.map some) place).mapError ChannelFailure.toError
    match outcome with
    | some outcome => pure [← groupJunction numbers outcome]
    | none => pure []
  pure junctions.flatten

def build (problem : Problem α) (solution : Solution α) (epoch : Nat) :
    Except OptimizeError (ExecutionPlan α) := do
  match problem.assignment? solution.selection with
  | none => throw (.internal "selection is not an exact cover")
  | some assigned =>
    let chosen := assigned.eraseDups
    let (tasks, numbers) := problem.assemble chosen
    let links ← chosen.mapM (problem.linkJunctions numbers)
    let groups ← problem.groupJunctions numbers assigned
    ExecutionPlan.create tasks (links.flatten ++ groups) solution.score epoch

end CrossPlan.Problem
