import CrossPlan.Compiler
import CrossPlan.Execution.Text
import CrossPlan.Proofs.Sequence

/-!
# What a selection does not depend on

Bound operators carry the round of compilation that they were made in, and candidates the place of
their rule.  Neither has an influence on which selection is found, on its score or on what is built
of it.
-/

set_option autoImplicit false

namespace CrossPlan

open Quantity Sequence

variable {α : Type}

/-! ## Forgetting rounds and places of rules -/

def BoundOperator.timeless (operator : BoundOperator α) : BoundOperator α :=
  { operator with epoch := 0 }

def Replacement.timeless (replacement : Replacement α) : Replacement α :=
  { replacement with operators := replacement.operators.map BoundOperator.timeless }

/-- A candidate without the place of its rule and the round of its operators. -/
def Candidate.timeless (candidate : Candidate α) : Candidate α :=
  { candidate with rule := 0, replacement := candidate.replacement.timeless }

def Task.timeless (task : Task α) : Task α := { task with operator := task.operator.timeless }

def ExecutionPlan.timeless (plan : ExecutionPlan α) : ExecutionPlan α :=
  { plan with tasks := plan.tasks.map Task.timeless, epoch := 0 }

/-! ## Task graphs -/

namespace TaskGraph

variable (tasks : List (Task α)) (junctions : List (Junction α))

@[simp]
theorem checkTarget_timeless (form : Form) (target : JunctionTarget α) :
    checkTarget (tasks.map Task.timeless) form target = checkTarget tasks form target := by
  unfold checkTarget
  rw [List.getElem?_map]
  cases tasks[target.consumer.task]? <;> rfl

@[simp]
theorem checkJunction_timeless (junction : Junction α) :
    checkJunction (tasks.map Task.timeless) junction = checkJunction tasks junction := by
  have targets : checkTarget (tasks.map Task.timeless) junction.form =
      checkTarget tasks junction.form :=
    funext (checkTarget_timeless tasks junction.form)
  unfold checkJunction
  rw [List.getElem?_map, targets]
  cases tasks[junction.producer.task]? <;> rfl

theorem verify_timeless : verify (tasks.map Task.timeless) junctions = verify tasks junctions := by
  have first : checkJunction (tasks.map Task.timeless) = checkJunction tasks :=
    funext (checkJunction_timeless tasks)
  have second : (tasks.map Task.timeless).forM (checkTask junctions) =
      tasks.forM (checkTask junctions) :=
    List.forM_map
  have third : numbers (tasks.map Task.timeless) junctions = numbers tasks junctions := by
    rw [numbers, numbers, List.map_map]
    rfl
  rw [verify, verify, first, second, order, order, third, List.length_map]

end TaskGraph

namespace ExecutionPlan

theorem create_timeless (tasks : List (Task α)) (junctions : List (Junction α)) (score : Score α)
    (epoch : Nat) : create (tasks.map Task.timeless) junctions score 0 =
      (create tasks junctions score epoch).map timeless := by
  rw [create, create, TaskGraph.verify_timeless]
  cases TaskGraph.verify tasks junctions <;> rfl

theorem shape_timeless (plan : ExecutionPlan α) : plan.timeless.shape = plan.shape := by
  simp only [shape, timeless, List.map_map]
  rfl

end ExecutionPlan

/-! ## Problems -/

namespace Problem

variable [Quantity α]

omit [Quantity α] in
def timeless (problem : Problem α) : Problem α :=
  { problem with candidates := problem.candidates.map Candidate.timeless }

theorem coveringOf_timeless (candidates : List (Candidate α)) (id : Nat) :
    coveringOf (candidates.map Candidate.timeless) id = coveringOf candidates id := by
  let covers (entry : Candidate α × Nat) : Bool := entry.1.covered.contains id
  let cheaper (a b : Candidate α × Nat) : Bool := rank a.1.cost b.1.cost != .gt
  let forget : Candidate α × Nat → Candidate α × Nat := Prod.map Candidate.timeless (·)
  let found := candidates.zipIdx.filter covers
  have keeps : ∀ a ∈ found, ∀ b ∈ found, cheaper a b = cheaper (forget a) (forget b) :=
    fun _ _ _ _ => rfl
  calc coveringOf (candidates.map Candidate.timeless) id
    _ = (((candidates.map Candidate.timeless).zipIdx.filter covers).mergeSort cheaper).map (·.2) :=
      rfl
    _ = ((found.map forget).mergeSort cheaper).map (·.2) := by
      rw [List.zipIdx_map, List.filter_map]
      rfl
    _ = ((found.mergeSort cheaper).map forget).map (·.2) := by
      rw [List.map_mergeSort keeps]
    _ = coveringOf candidates id := List.map_map

theorem leastShare?_timeless (candidates : List (Candidate α)) (covering : List Nat) :
    leastShare? (candidates.map Candidate.timeless) covering =
      leastShare? candidates covering := by
  simp only [leastShare?, List.getElem?_map, Option.map_map]
  rfl

theorem create_timeless (plan : Plan) (candidates : List (Candidate α)) (estimator : Estimator α)
    (known : PlanStatistics) (config : OptimizerConfig α) :
    create plan (candidates.map Candidate.timeless) estimator known config =
      (create plan candidates estimator known config).map timeless := by
  have covering : coveringOf (candidates.map Candidate.timeless) = coveringOf candidates :=
    funext (coveringOf_timeless candidates)
  have shares : leastShare? (candidates.map Candidate.timeless) = leastShare? candidates :=
    funext (leastShare?_timeless candidates)
  rw [create, create, covering, shares]
  cases plan.order <;> rfl

variable (problem : Problem α)

/-! ### Assigning and handing over -/

section

omit [Quantity α]

theorem getElem?_timeless (place : Nat) :
    problem.timeless.candidates[place]? = problem.candidates[place]?.map Candidate.timeless :=
  List.getElem?_map

@[simp]
theorem placesOf?_timeless (candidate : Nat) :
    problem.timeless.placesOf? candidate = problem.placesOf? candidate := by
  rw [placesOf?, placesOf?, getElem?_timeless, Option.bind_map]
  rfl

@[simp]
theorem place?_timeless (candidate : Nat) (assigned : Assignment) :
    problem.timeless.place? candidate assigned = problem.place? candidate assigned := by
  rw [place?, place?, placesOf?_timeless]

@[simp]
theorem assignment?_timeless (selection : List Nat) :
    problem.timeless.assignment? selection = problem.assignment? selection := by
  simp only [assignment?, place?_timeless]
  rfl

theorem outputSlot?_timeless (chosen : Nat) (output : SlotRef) :
    problem.timeless.outputSlot? chosen output =
      (problem.outputSlot? chosen output).map (Prod.map id BoundOperator.timeless) := by
  simp [outputSlot?, getElem?_timeless, Candidate.timeless, Replacement.timeless,
    Option.bind_map, Option.map_bind, Function.comp_def]

theorem inputSlot?_timeless (chosen : Nat) (input : SlotRef) :
    problem.timeless.inputSlot? chosen input =
      (problem.inputSlot? chosen input).map (Prod.map id BoundOperator.timeless) := by
  simp [inputSlot?, getElem?_timeless, Candidate.timeless, Replacement.timeless,
    Option.bind_map, Option.map_bind, Function.comp_def]

end

@[simp]
theorem handOver_timeless (assigned : Assignment) (group : OutputGroup) (costs : List α) :
    problem.timeless.handOver assigned group costs = problem.handOver assigned group costs := by
  have outside : problem.timeless.outsideConsumers = problem.outsideConsumers := rfl
  have chosen : problem.timeless.chosen? = problem.chosen? := rfl
  have names : problem.timeless.nameOf = problem.nameOf := rfl
  have broadcast : problem.timeless.isBroadcast = problem.isBroadcast := rfl
  unfold handOver
  simp only [outside, chosen, names, broadcast]
  cases problem.chosen? assigned group.producer.operator with
  | none => rfl
  | some producer =>
    refine bind_congr fun consumers => ?_
    match consumers with
    | [] => rfl
    | first :: rest =>
      simp only [outputSlot?_timeless, inputSlot?_timeless]
      cases problem.outputSlot? producer group.producer with
      | none => rfl
      | some source =>
        change Except.bind (List.mapM _ (first :: rest)) _ =
          Except.bind (List.mapM _ (first :: rest)) _
        refine congrArg (Except.bind · _) (mapM_congr fun entry _ => ?_)
        cases problem.inputSlot? entry.2 entry.1 <;> rfl

@[simp]
theorem outcome_timeless : problem.timeless.outcome = problem.outcome := by
  funext assigned place
  simp only [outcome, handOver_timeless]
  rfl

@[simp]
theorem addGroups_timeless (assigned : Assignment) (cost : α) (places : List Nat) :
    problem.timeless.addGroups assigned cost places = problem.addGroups assigned cost places := by
  simp only [addGroups, outcome_timeless]

/-! ### Scoring -/

@[simp]
theorem scoreOf_timeless (assigned : List Nat) :
    problem.timeless.scoreOf assigned = problem.scoreOf assigned := by
  have costs (used : List Nat) : problem.timeless.costsOf used = problem.costsOf used := by
    simp only [costsOf, getElem?_timeless, Option.map_map]
    rfl
  have size : problem.timeless.candidates.length = problem.candidates.length := List.length_map _
  simp only [scoreOf, costs, size, outcome_timeless, getElem?_timeless, Option.map_map]
  rfl

/-! ### Searching -/

def Placement.timeless (placement : Placement α) : Placement α :=
  { placement with candidate := placement.candidate.timeless }

omit [Quantity α] in
theorem placement?_timeless (branch : Branch α) (place : Nat) :
    problem.timeless.placement? branch place =
      (problem.placement? branch place).map Placement.timeless := by
  simp only [placement?, getElem?_timeless, place?_timeless]
  cases problem.candidates[place]? with
  | none => rfl
  | some candidate => cases problem.place? place branch.assigned <;> rfl

omit [Quantity α] in
theorem placements_timeless (branch : Branch α) (covering : List Nat) :
    covering.filterMap (problem.timeless.placement? branch) =
      (covering.filterMap (problem.placement? branch)).map Placement.timeless := by
  rw [List.map_filterMap]
  exact congrArg (covering.filterMap ·) (funext (problem.placement?_timeless branch))

@[simp]
theorem grow_timeless (branch : Branch α) (placement : Placement α) :
    problem.timeless.grow branch placement.timeless = problem.grow branch placement := by
  simp only [grow, addGroups_timeless]
  rfl

@[simp]
theorem finish_timeless (search : Search α) (branch : Branch α) :
    search.finish problem.timeless branch = search.finish problem branch := by
  simp only [Search.finish, scoreOf_timeless]

theorem descend_timeless (places : List Nat) (branch : Branch α) (search : Search α) :
    problem.timeless.descend places branch search = problem.descend places branch search := by
  induction places generalizing branch search with
  | nil => exact problem.finish_timeless search branch
  | cons place rest ih =>
    have covering : problem.timeless.covering = problem.covering := rfl
    simp only [descend, covering, ih, placements_timeless]
    cases (problem.covering.getD place []).filterMap (problem.placement? branch) with
    | nil => rfl
    | cons first rest =>
      simp only [List.map_cons, List.foldl_cons, List.foldl_map, grow_timeless]
      rfl

theorem exhaustive_timeless : problem.timeless.exhaustive = problem.exhaustive := by
  simp only [exhaustive, descend_timeless]
  rfl

@[simp]
theorem choice_timeless (branch : Branch α) (placement : Placement α) :
    problem.timeless.choice branch placement.timeless = problem.choice branch placement := by
  simp only [choice, addGroups_timeless]
  rfl

theorem chooseFrom_timeless (branch : Branch α) (placements : List (Placement α))
    (best : Option (Choice α)) (failure : Option ChannelFailure) :
    problem.timeless.chooseFrom branch (placements.map Placement.timeless) best failure =
      problem.chooseFrom branch placements best failure := by
  induction placements generalizing best failure with
  | nil => rfl
  | cons placement rest ih =>
    simp only [List.map_cons, chooseFrom, choice_timeless, ih]

theorem greedyFrom_timeless (places : List Nat) (branch : Branch α)
    (failure : Option ChannelFailure) :
    problem.timeless.greedyFrom places branch failure =
      problem.greedyFrom places branch failure := by
  induction places generalizing branch failure with
  | nil => rfl
  | cons place rest ih =>
    have covering : problem.timeless.covering = problem.covering := rfl
    simp only [greedyFrom, covering, placements_timeless, chooseFrom_timeless, ih]
    rfl

theorem greedy_timeless : problem.timeless.greedy = problem.greedy := by
  simp only [greedy, greedyFrom_timeless, scoreOf_timeless]
  rfl

@[simp]
theorem solve_timeless : problem.timeless.solve = problem.solve := by
  have size : problem.timeless.candidates.length = problem.candidates.length := List.length_map _
  simp only [solve, exhaustive_timeless, greedy_timeless, size]
  rfl

/-! ### Building -/

omit [Quantity α] in
theorem tasksOf_timeless (candidate : Candidate α) (start : Nat) :
    tasksOf candidate.timeless start = (tasksOf candidate start).map Task.timeless := by
  simp only [tasksOf, Candidate.timeless, Replacement.timeless, List.zipIdx_map, List.map_map]
  rfl

omit [Quantity α] in
theorem assemble_timeless (chosen : List Nat) : problem.timeless.assemble chosen =
    ((problem.assemble chosen).1.map Task.timeless, (problem.assemble chosen).2) := by
  let forget (state : List (Task α) × TaskNumbers) : List (Task α) × TaskNumbers :=
    (state.1.map Task.timeless, state.2)
  unfold assemble
  change List.foldl _ (forget ([], [])) chosen = forget _
  refine List.foldl_hom forget fun state place => ?_
  simp only [getElem?_timeless]
  cases problem.candidates[place]? with
  | none => rfl
  | some candidate => simp [forget, tasksOf_timeless]

@[simp]
theorem linkJunction_timeless (numbers : TaskNumbers) (place : Nat) (replacement : Replacement α)
    (link : Edge) : linkJunction numbers place replacement.timeless link =
      linkJunction numbers place replacement link := by
  unfold linkJunction
  simp only [Replacement.timeless, List.getElem?_map]
  cases replacement.operators[link.source.operator]? <;>
    cases replacement.operators[link.target.operator]? <;> rfl

@[simp]
theorem linkJunctions_timeless (numbers : TaskNumbers) :
    problem.timeless.linkJunctions numbers = problem.linkJunctions numbers := by
  funext place
  unfold linkJunctions
  rw [getElem?_timeless]
  cases problem.candidates[place]? with
  | none => rfl
  | some candidate =>
    exact congrArg (candidate.replacement.links.mapM ·)
      (funext (linkJunction_timeless numbers place candidate.replacement))

@[simp]
theorem groupJunctions_timeless (numbers : TaskNumbers) (assigned : List Nat) :
    problem.timeless.groupJunctions numbers assigned = problem.groupJunctions numbers assigned := by
  simp only [groupJunctions, outcome_timeless]
  rfl

theorem build_timeless (solution : Solution α) (epoch : Nat) : problem.timeless.build solution 0 =
    (problem.build solution epoch).map ExecutionPlan.timeless := by
  unfold build
  rw [assignment?_timeless]
  cases problem.assignment? solution.selection with
  | none => rfl
  | some assigned =>
    simp only [assemble_timeless, linkJunctions_timeless, groupJunctions_timeless]
    generalize problem.assemble assigned.eraseDups = assembled
    cases assigned.eraseDups.mapM (problem.linkJunctions assembled.2) with
    | error error => rfl
    | ok links =>
      cases problem.groupJunctions assembled.2 assigned with
      | error error => rfl
      | ok groups => exact ExecutionPlan.create_timeless _ _ _ epoch

theorem optimize_timeless (epoch : Nat) : problem.timeless.optimize 0 =
    (problem.optimize epoch).map ExecutionPlan.timeless := by
  unfold optimize
  rw [solve_timeless]
  cases problem.solve with
  | error error => rfl
  | ok solution => exact problem.build_timeless solution epoch

end Problem

end CrossPlan
