import CrossPlan.Proofs.Execution.Graph
import CrossPlan.Proofs.Execution.Ledger

/-!
# Nothing happens behind a failure

When an operator fails, the channels that were made are those of the tasks that had their turns and
the empty ones that the operator was given.  What the operators of the tasks ahead would do makes no
difference.
-/

set_option autoImplicit false

namespace CrossPlan

open Sequence RunStep

variable {α : Type}

/-! ## Who made a channel -/

namespace ExecutionPlan

variable {plan : ExecutionPlan α} {task : Task α}

theorem producer_of_outlets {junction : Junction α} (listed : junction ∈ plan.outlets task) :
    junction.producer.task = task.id := by
  obtain ⟨slot, -, found⟩ := mem_outlets.mp listed
  rw [producer_of_junctionFrom? found]

theorem producer_of_routed {junction : Junction α} {making : Making}
    (listed : making ∈ junction.routed) : making.producer = junction.producer.task := by
  rcases List.mem_append.mp listed with copy | converted
  · obtain ⟨target, -, rfl⟩ := List.mem_map.mp copy
    rfl
  · obtain ⟨target, -, among⟩ := List.mem_flatMap.mp converted
    obtain ⟨step, -, rfl⟩ := List.mem_map.mp among
    rfl

/-- All channels that a task makes are recorded under its number, whatever they are made for. -/
theorem producer_of_makings {making : Making} (listed : making ∈ plan.makings task) :
    making.producer = task.id := by
  rcases List.mem_append.mp listed with original | routed
  · obtain ⟨junction, opened, rfl⟩ := List.mem_map.mp original
    exact producer_of_outlets opened
  · obtain ⟨junction, opened, among⟩ := List.mem_flatMap.mp routed
    rw [producer_of_routed among, producer_of_outlets opened]

/-! ## Other evaluators ahead -/

/-- The plan with other evaluators for the tasks at the given places. -/
def reequipped (plan : ExecutionPlan α) (places : List Nat) (evaluate : Nat → Evaluator α) :
    ExecutionPlan α :=
  { plan with tasks := plan.tasks.mapIdx fun place task =>
      if place ∈ places then
        { task with operator := { task.operator with evaluate := evaluate place } }
      else task }

theorem getElem?_reequipped {places : List Nat} {place : Nat} (other : place ∉ places)
    (evaluate : Nat → Evaluator α) :
    (plan.reequipped places evaluate).tasks[place]? = plan.tasks[place]? := by
  rw [reequipped, List.getElem?_mapIdx]
  simp only [if_neg other, Option.map_id']

variable [Quantity α] {settings : RunSettings α}

theorem turns_reequipped {places numbers : List Nat}
    (apart : ∀ number ∈ numbers, number ∉ places) (evaluate : Nat → Evaluator α) :
    turns settings (plan.reequipped places evaluate) numbers = turns settings plan numbers := by
  unfold turns
  refine mapM_congr fun number listed => ?_
  rw [getElem?_reequipped (apart number listed)]
  -- of the plan around its task, a turn looks at the junctions only
  rfl

namespace Breakdown

variable {workspace : Workspace} {state : RunState α}

/-- A run breaks down in the same way whatever the operators ahead would do. -/
theorem runIn_reequipped (breakdown : plan.Breakdown settings workspace state)
    (distinct : plan.order.Nodup) (evaluate : Nat → Evaluator α) :
    (plan.reequipped breakdown.ahead evaluate).runIn settings workspace =
      (.error breakdown.error, state) := by
  rw [breakdown.split, List.nodup_append, List.nodup_cons] at distinct
  obtain ⟨-, ⟨fresh, -⟩, apart⟩ := distinct
  have behind : ∀ number ∈ breakdown.done, number ∉ breakdown.ahead :=
    fun number done ahead => apart number done number (List.mem_cons_of_mem _ ahead) rfl
  let other : (plan.reequipped breakdown.ahead evaluate).Breakdown settings workspace state :=
    { breakdown with
      split := breakdown.split
      found := by rw [getElem?_reequipped fresh, breakdown.found]
      told := by rw [turns_reequipped behind, breakdown.told]
      handed := breakdown.handed
      failed := breakdown.failed }
  exact other.runIn

/-! ## What had happened -/

theorem handing_done (breakdown : plan.Breakdown settings workspace state) :
    Handed plan breakdown.task breakdown.between breakdown.taken breakdown.given state := by
  have leads : Yields _ breakdown.between _ := yields_handing plan breakdown.task
  exact leads.of_run breakdown.handed

/-- The channels of a run that broke down: those of the tasks that had their turns, and the empty
ones that the operator was given. -/
theorem makings_eq (breakdown : plan.Breakdown settings workspace state)
    (returns : ∀ task ∈ plan.tasks, task.operator.Returns) :
    state.created.map CreatedChannel.making =
      (breakdown.turns.flatMap fun turn => plan.makings turn.task) ++
        (plan.outlets breakdown.task).map Junction.original := by
  have ledger := Ledger.of_turns returns breakdown.told
  have handed := breakdown.handing_done
  rw [handed.created, ledger.created, List.map_append, Making.map_making_numbered,
    Making.map_making_numbered]

theorem id_ne (breakdown : plan.Breakdown settings workspace state)
    (returns : ∀ task ∈ plan.tasks, task.operator.Returns) (distinct : plan.order.Nodup)
    (ids : (plan.tasks.map (·.id)).Nodup) {turn : Turn α} (had : turn ∈ breakdown.turns) :
    turn.task.id ≠ breakdown.task.id := by
  intro same
  have ledger := Ledger.of_turns returns breakdown.told
  obtain ⟨number, done, found⟩ := mem_right ledger.tasks had
  have here : (plan.tasks.map (·.id))[number]? = some turn.task.id := by
    rw [List.getElem?_map, found]
    rfl
  have there : (plan.tasks.map (·.id))[breakdown.number]? = some turn.task.id := by
    rw [List.getElem?_map, breakdown.found, same]
    rfl
  have within := (List.getElem?_eq_some_iff.mp here).1
  have place := (List.getElem?_inj within ids).mp (here.trans there.symm)
  rw [breakdown.split, List.nodup_append] at distinct
  exact distinct.2.2 number done _ List.mem_cons_self place

end Breakdown

/-- What is recorded when a task has failed: channels of its own, which nobody was to read, and
channels of tasks that come before it. -/
structure Aborted (plan : ExecutionPlan α) (done : List Nat) (task : Task α) (state : RunState α) :
    Prop where
  producers : ∀ channel ∈ state.created, channel.producer = task.id ∨
    ∃ number ∈ done, ∃ earlier, plan.tasks[number]? = some earlier ∧ channel.producer = earlier.id
  outputs : state.created.countP (fun channel => channel.producer == task.id) =
    task.operator.outputs
  unread : ∀ channel ∈ state.created, channel.producer = task.id → channel.consumer = none

theorem Breakdown.aborted {workspace : Workspace} {state : RunState α}
    (breakdown : plan.Breakdown settings workspace state)
    (returns : ∀ task ∈ plan.tasks, task.operator.Returns) (distinct : plan.order.Nodup)
    (ids : (plan.tasks.map (·.id)).Nodup) :
    plan.Aborted breakdown.done breakdown.task state := by
  have whole := breakdown.makings_eq returns
  have ledger := Ledger.of_turns returns breakdown.told
  refine ⟨?_, ?_, ?_⟩
  · intro channel listed
    have among := List.mem_map_of_mem (f := CreatedChannel.making) listed
    rw [whole] at among
    rcases List.mem_append.mp among with earlier | own
    · obtain ⟨turn, had, here⟩ := List.mem_flatMap.mp earlier
      obtain ⟨place, done, found⟩ := mem_right ledger.tasks had
      exact Or.inr ⟨place, done, turn.task, found, producer_of_makings here⟩
    · obtain ⟨junction, opened, alike⟩ := List.mem_map.mp own
      have producer := congrArg Making.producer alike
      exact Or.inl (producer.symm.trans (producer_of_outlets opened))
  · have counted : state.created.countP (fun channel => channel.producer == breakdown.task.id) =
        (state.created.map CreatedChannel.making).countP
          (fun making => making.producer == breakdown.task.id) := by
      rw [List.countP_map]
      rfl
    have earlier : (breakdown.turns.flatMap fun turn => plan.makings turn.task).countP
        (fun making => making.producer == breakdown.task.id) = 0 := by
      refine List.countP_eq_zero.mpr fun making listed => ?_
      obtain ⟨turn, had, here⟩ := List.mem_flatMap.mp listed
      rw [producer_of_makings here, beq_iff_eq]
      exact breakdown.id_ne returns distinct ids had
    have own : ((plan.outlets breakdown.task).map Junction.original).countP
        (fun making => making.producer == breakdown.task.id) =
          breakdown.task.operator.outputs := by
      rw [List.countP_eq_length.mpr, List.length_map, breakdown.handing_done.opens.length]
      intro making listed
      obtain ⟨junction, opened, rfl⟩ := List.mem_map.mp listed
      exact beq_iff_eq.mpr (producer_of_outlets opened)
    rw [counted, whole, List.countP_append, earlier, own, Nat.zero_add]
  · intro channel listed same
    have among := List.mem_map_of_mem (f := CreatedChannel.making) listed
    rw [whole] at among
    rcases List.mem_append.mp among with earlier | own
    · obtain ⟨turn, had, here⟩ := List.mem_flatMap.mp earlier
      have producer := producer_of_makings here
      exact absurd (producer.symm.trans same) (breakdown.id_ne returns distinct ids had)
    · obtain ⟨junction, -, alike⟩ := List.mem_map.mp own
      exact (congrArg Making.consumer alike).symm

/-- Nothing happens behind a failure.  The run of an accepted plan that ends with the failure of an
operator names the task that it belongs to.  What it has recorded belongs to this task or to tasks
before it, and what belongs to this task are its outputs alone; and it would have been the same with
any other evaluators for the tasks ahead. -/
theorem aborted_of_runIn {tasks : List (Task α)} {junctions : List (Junction α)} {score : Score α}
    {epoch : Nat} (accepted : create tasks junctions score epoch = .ok plan)
    (ids : (tasks.map (·.id)).Nodup) (returns : ∀ task ∈ tasks, task.operator.Returns)
    {settings : RunSettings α} {workspace : Workspace} {state : RunState α} {number : Nat}
    {name : String} {platform : Platform} {inputs outputs : List (Nat × Form)}
    {source : EvaluationError}
    (run : plan.runIn settings workspace =
      (.error (.execution number name platform inputs outputs source), state)) :
    ∃ breakdown : plan.Breakdown settings workspace state,
      (number = breakdown.task.id ∧ name = breakdown.task.operator.name ∧
        platform = breakdown.task.operator.platform ∧ source = breakdown.source) ∧
      plan.Aborted breakdown.done breakdown.task state ∧
      ∀ evaluate, (plan.reequipped breakdown.ahead evaluate).runIn settings workspace =
        plan.runIn settings workspace := by
  obtain ⟨order, verified, made⟩ := bind_ok_iff.mp accepted
  cases made
  have distinct := (TaskGraph.accepted_of_verify verified).distinct
  obtain ⟨breakdown, same⟩ := exists_breakdown run (by rintro ⟨fault, ⟨⟩⟩)
  refine ⟨breakdown, ?_, breakdown.aborted returns distinct ids, fun evaluate => ?_⟩
  · cases same
    exact ⟨rfl, rfl, rfl, rfl⟩
  · rw [breakdown.runIn_reequipped distinct, run, same]

/-! ## A plan with a source that is missing -/

def brokenTasks : List (Task Rat) :=
  [{ id := 0, operator := (BoundAction.collectionSource [⟨[("n", .int 1)]⟩]).toOperator "people"
       .inProcess 0
     origin := [0], candidate := 0, rule := "people", estimate := none },
    { id := 1, operator := (BoundAction.sink (.memory "kept")).toOperator "kept" .inProcess 0
      origin := [1], candidate := 1, rule := "kept", estimate := none },
    { id := 2, operator := (BoundAction.textSource "missing.txt").toOperator "events" .inProcess 0
      origin := [2], candidate := 2, rule := "events", estimate := none },
    { id := 3, operator := (BoundAction.sink (.memory "out")).toOperator "out" .inProcess 0
      origin := [3], candidate := 3, rule := "out", estimate := none }]

def brokenJunctions : List (Junction Rat) :=
  [⟨⟨0, 0⟩, .stream, [⟨⟨1, 0⟩, [], false, 0⟩]⟩, ⟨⟨2, 0⟩, .stream, [⟨⟨3, 0⟩, [], false, 0⟩]⟩]

def brokenPlan : ExecutionPlan Rat :=
  ⟨brokenTasks, brokenJunctions, [0, 1, 2, 3], ⟨0, 0, [], []⟩, 0⟩

theorem broken_accepted : create brokenTasks brokenJunctions ⟨0, 0, [], []⟩ 0 = .ok brokenPlan := by
  have numbers : TaskGraph.numbers brokenTasks brokenJunctions = [0, 1, 2, 3] :=
    List.mergeSort_of_pairwise (by decide)
  have order : TaskGraph.order brokenTasks brokenJunctions = .ok [0, 1, 2, 3] := by
    rw [TaskGraph.order, numbers]
    rfl
  have checked : brokenJunctions.forM (TaskGraph.checkJunction brokenTasks) = .ok () := by
    decide +kernel
  have joined : brokenTasks.forM (TaskGraph.checkTask brokenJunctions) = .ok () := by
    decide +kernel
  rw [create, TaskGraph.verify, checked, joined, order]
  rfl

def brokenAction (task : Task Rat) : BoundAction :=
  match task.id with
  | 0 => .collectionSource [⟨[("n", .int 1)]⟩]
  | 1 => .sink (.memory "kept")
  | 2 => .textSource "missing.txt"
  | _ => .sink (.memory "out")

theorem broken_bound : ∀ task ∈ brokenTasks, ∃ name platform epoch,
    task.operator = (brokenAction task).toOperator name platform epoch := by
  simp only [brokenTasks, List.forall_mem_cons, List.not_mem_nil, false_implies, implies_true,
    and_true]
  exact ⟨⟨_, _, _, rfl⟩, ⟨_, _, _, rfl⟩, ⟨_, _, _, rfl⟩, ⟨_, _, _, rfl⟩⟩

theorem broken_run : (brokenPlan.runIn ⟨1, fun _ _ => 0⟩ .empty).1 =
    .error (.execution 2 "events" .inProcess [] [(1, .stream)]
      (.dataAccess "missing.txt" .notFound)) := by
  decide +kernel

/-- The first sink has had its turn when the file turns out to be missing. -/
theorem aborted_of_runIn_broken :
    (brokenPlan.runIn ⟨1, fun _ _ => 0⟩ .empty).1 =
      .error (.execution 2 "events" .inProcess [] [(1, .stream)]
        (.dataAccess "missing.txt" .notFound)) ∧
    ∃ state, ∃ breakdown : brokenPlan.Breakdown ⟨1, fun _ _ => 0⟩ .empty state,
      breakdown.task.id = 2 ∧ brokenPlan.Aborted breakdown.done breakdown.task state := by
  refine ⟨broken_run, ?_⟩
  have returns : ∀ task ∈ brokenTasks, task.operator.Returns := by
    intro task listed
    obtain ⟨name, platform, epoch, same⟩ := broken_bound task listed
    rw [same]
    exact BoundAction.returns _ _ _ _
  cases run : brokenPlan.runIn ⟨1, fun _ _ => 0⟩ .empty with
  | mk result state =>
    have ended := broken_run
    rw [run] at ended
    obtain rfl := ended
    obtain ⟨breakdown, ⟨number, -⟩, aborted, -⟩ :=
      aborted_of_runIn broken_accepted (by decide) returns run
    exact ⟨state, breakdown, number.symm, aborted⟩

/-! ## Two tasks of one number -/

def twin (name : String) (evaluate : Evaluator Rat) : Task Rat :=
  { id := 0
    operator :=
      { name, kind := name, platform := .inProcess, epoch := 0, inputs := 0, outputs := 1
        inputForms := fun _ => [.stream], outputForms := fun _ => [.stream], evaluate }
    origin := [], candidate := 0, rule := name, estimate := none }

def twinTasks : List (Task Rat) :=
  [twin "first" fun context _ outputs workspace =>
      .ok (context.evaluation 0 (outputs.map (Channel.acceptRows · [])), workspace),
    twin "second" fun _ _ _ _ => .error (.invalidParameters "boom")]

def twinJunctions : List (Junction Rat) := [⟨⟨0, 0⟩, .stream, [⟨⟨1, 0⟩, [], false, 0⟩]⟩]

def twinPlan : ExecutionPlan Rat := ⟨twinTasks, twinJunctions, [0, 1], ⟨0, 0, [], []⟩, 0⟩

theorem twin_accepted : create twinTasks twinJunctions ⟨0, 0, [], []⟩ 0 = .ok twinPlan := by
  have numbers : TaskGraph.numbers twinTasks twinJunctions = [0, 1] :=
    List.mergeSort_of_pairwise (by decide)
  have order : TaskGraph.order twinTasks twinJunctions = .ok [0, 1] := by
    rw [TaskGraph.order, numbers]
    rfl
  have checked : twinJunctions.forM (TaskGraph.checkJunction twinTasks) = .ok () := by
    decide +kernel
  have joined : twinTasks.forM (TaskGraph.checkTask twinJunctions) = .ok () := by
    decide +kernel
  rw [create, TaskGraph.verify, checked, joined, order]
  rfl

theorem twin_returns : ∀ task ∈ twinTasks, task.operator.Returns := by
  intro task listed context inputs outputs workspace evaluation after _ _ _ success
  rcases List.mem_pair.mp listed with rfl | rfl
  · cases success
    exact List.forall₂_map_right_iff.mpr (List.forall₂_same.mpr fun _ _ => ⟨rfl, rfl, rfl⟩)
  · cases success

/-- Where two tasks have one number, the channel that the first one filled is counted to the second
one, which fails with a single output. -/
theorem twin_outputs :
    create twinTasks twinJunctions ⟨0, 0, [], []⟩ 0 = .ok twinPlan ∧
    (∀ task ∈ twinTasks, task.operator.Returns) ∧
    ∃ state, twinPlan.runIn ⟨1, fun _ _ => 0⟩ .empty =
        (.error (.execution 0 "second" .inProcess [] [(1, .stream)] (.invalidParameters "boom")),
          state) ∧
      ∀ done, ∀ task ∈ twinTasks, ¬ twinPlan.Aborted done task state := by
  refine ⟨twin_accepted, twin_returns, (twinPlan.runIn ⟨1, fun _ _ => 0⟩ .empty).2, ?_, ?_⟩
  · have ended : (twinPlan.runIn ⟨1, fun _ _ => 0⟩ .empty).1 =
        .error (.execution 0 "second" .inProcess [] [(1, .stream)]
          (.invalidParameters "boom")) := by
      decide +kernel
    exact Prod.ext ended rfl
  · intro done task listed aborted
    have two : (twinPlan.runIn ⟨1, fun _ _ => 0⟩ .empty).2.created.countP
        (fun channel => channel.producer == 0) = 2 := by
      decide +kernel
    have one := aborted.outputs
    rcases List.mem_pair.mp listed with rfl | rfl
    · exact absurd (two.symm.trans one) (by decide)
    · exact absurd (two.symm.trans one) (by decide)

end ExecutionPlan

end CrossPlan
