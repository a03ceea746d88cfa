import CrossPlan.Proofs.Execution.Safety
import CrossPlan.Proofs.Precedence.Counting

/-!
# The order in which tasks run

The tasks of an accepted plan are ordered so that each runs once and behind the producers of all
that it reads, and their slots are connected by junctions in forms that fit.  Where the slots are
connected so, a plan is accepted exactly if no task waits for itself.  The same order comes out when
the connections into each task are counted, and no more of them are taken off than were counted.
-/

set_option autoImplicit false

namespace CrossPlan

namespace TaskGraph

open Precedence

variable {α : Type} {tasks : List (Task α)} {junctions : List (Junction α)}

/-! ## Connected slots -/

inductive Chain : Form → List Conversion → Form → Prop
  | nil (form : Form) : Chain form [] form
  | cons (step : Conversion) {rest : List Conversion} {target : Form}
      (further : Chain step.target rest target) : Chain step.source (step :: rest) target

/-- All slots of the tasks are joined once, by junctions that carry what their producers put out to
consumers that take it in the form in which it arrives. -/
structure Connected (tasks : List (Task α)) (junctions : List (Junction α)) : Prop where
  fed : ∀ task ∈ tasks, ∀ slot, slot < task.operator.inputs →
    ((junctions.flatMap (·.targets)).map (·.consumer)).count ⟨task.id, slot⟩ = 1
  carried : ∀ task ∈ tasks, ∀ slot, slot < task.operator.outputs →
    (junctions.map (·.producer)).count ⟨task.id, slot⟩ = 1
  read : ∀ junction ∈ junctions, junction.targets ≠ []
  produced : ∀ junction ∈ junctions, ∃ task, tasks[junction.producer.task]? = some task ∧
    junction.form ∈ task.operator.outputForms junction.producer.slot
  arrives : ∀ junction ∈ junctions, ∀ target ∈ junction.targets, ∃ task arrived,
    tasks[target.consumer.task]? = some task ∧ Chain junction.form target.conversions arrived ∧
      arrived ∈ task.operator.inputForms target.consumer.slot

theorem chain_iff {steps : List Conversion} {source target : Form} :
    Chain source steps target ↔ follow? source steps = some target := by
  constructor
  · intro chain
    induction chain with
    | nil form => rfl
    | cons step further ih => rw [follow?, if_pos rfl, ih]
  · intro followed
    induction steps generalizing source with
    | nil =>
      obtain rfl := Option.some.inj followed
      exact .nil _
    | cons step rest ih =>
      rw [follow?] at followed
      split at followed
      · next same =>
        subst same
        exact .cons step (ih followed)
      · cases followed

theorem connected_iff : Connected tasks junctions ↔
    (∀ junction ∈ junctions, Carries tasks junction) ∧ ∀ task ∈ tasks, Joined junctions task := by
  have same : (junctions.flatMap (·.targets)).map (·.consumer) = TaskGraph.fed junctions :=
    List.map_flatMap
  constructor
  · intro connected
    refine ⟨fun junction listed => ⟨connected.produced junction listed,
      connected.read junction listed, fun target among => ?_⟩, fun task listed =>
      ⟨same ▸ connected.fed task listed, connected.carried task listed⟩⟩
    obtain ⟨task, arrived, found, chain, taken⟩ := connected.arrives junction listed target among
    exact ⟨task, arrived, found, chain_iff.mp chain, taken⟩
  · rintro ⟨carries, joined⟩
    refine ⟨same ▸ fun task listed => (joined task listed).fed,
      fun task listed => (joined task listed).carried,
      fun junction listed => (carries junction listed).read,
      fun junction listed => (carries junction listed).produced,
      fun junction listed target among => ?_⟩
    obtain ⟨task, arrived, found, followed, taken⟩ := (carries junction listed).arrives target among
    exact ⟨task, arrived, found, chain_iff.mpr followed, taken⟩

/-! ## Counting the connections -/

/-- The order by counting: tasks are taken, the least number first, once all connections into them
are counted down.  There is no answer if a count were to fall below zero. -/
def orderByCounts? (tasks : List (Task α)) (junctions : List (Junction α)) :
    Option (Except OptimizeError (List Nat)) :=
  (Tally.pass? List.min? (numbers tasks junctions) (precedence junctions)).map fun tally =>
    if tally.taken.length = tasks.length then .ok tally.taken else fault "task graph is cyclic"

theorem numbers_ascending (tasks : List (Task α)) (junctions : List (Junction α)) :
    (numbers tasks junctions).Pairwise (· < ·) := by
  have distinct : (numbers tasks junctions).Nodup :=
    (List.mergeSort_perm _ _).nodup_iff.mpr (Sequence.nodup_eraseDups _)
  have sorted : (numbers tasks junctions).Pairwise fun a b => decide (a ≤ b) = true := by
    refine List.pairwise_mergeSort ?_ ?_ _
    · simp only [decide_eq_true_eq]
      exact fun _ _ _ => Nat.le_trans
    · simp only [Bool.or_eq_true, decide_eq_true_eq]
      exact Nat.le_total
  refine (sorted.and distinct).imp fun {a b} both => ?_
  exact Nat.lt_of_le_of_ne (of_decide_eq_true both.1) both.2

theorem orderByCounts?_eq_order (tasks : List (Task α)) (junctions : List (Junction α)) :
    orderByCounts? tasks junctions = some (TaskGraph.order tasks junctions) := by
  have known : ∀ pair ∈ precedence junctions, pair.2 ∈ numbers tasks junctions := by
    intro pair present
    rw [numbers, List.mem_mergeSort, List.mem_eraseDups]
    exact List.mem_append_right _ (List.mem_map_of_mem present)
  obtain ⟨tally, success, -, taken⟩ :=
    exists_pass?_min? (numbers_ascending tasks junctions) known
  rw [orderByCounts?, success, Option.map_some, taken, TaskGraph.order]

end TaskGraph

namespace ExecutionPlan

variable {α : Type} {tasks : List (Task α)} {junctions : List (Junction α)}

theorem exists_create_iff (score : Score α) (epoch : Nat) :
    (∃ plan, create tasks junctions score epoch = .ok plan) ↔
      ∃ order, TaskGraph.verify tasks junctions = .ok order := by
  rw [create]
  cases TaskGraph.verify tasks junctions with
  | ok order => exact iff_of_true ⟨_, rfl⟩ ⟨_, rfl⟩
  | error fault => exact iff_of_false (by rintro ⟨_, ⟨⟩⟩) (by rintro ⟨_, ⟨⟩⟩)

/-- Tasks that are numbered by their places are ordered, each once and behind its producers, and
connected if they make a plan; connected tasks make one exactly if none waits for itself; and
counting the connections leads to the same order. -/
theorem connected_of_create (numbered : tasks.map (·.id) = List.range tasks.length)
    (score : Score α) (epoch : Nat) :
    (∀ plan, create tasks junctions score epoch = .ok plan →
      plan.order.Perm (tasks.map (·.id)) ∧
      (∀ junction ∈ junctions, ∀ target ∈ junction.targets,
        plan.order.idxOf junction.producer.task < plan.order.idxOf target.consumer.task) ∧
      TaskGraph.Connected tasks junctions) ∧
    (TaskGraph.Connected tasks junctions →
      ((∃ plan, create tasks junctions score epoch = .ok plan) ↔
        Precedence.Acyclic (TaskGraph.precedence junctions))) ∧
    TaskGraph.orderByCounts? tasks junctions = some (TaskGraph.order tasks junctions) := by
  refine ⟨fun plan accepted => ?_, fun connected => ?_, TaskGraph.orderByCounts?_eq_order _ _⟩
  · have verified := verified_of_create numbered accepted
    obtain ⟨order, -, made⟩ := Sequence.bind_ok_iff.mp accepted
    cases made
    refine ⟨numbered ▸ verified.order, fun junction listed target among => ?_,
      TaskGraph.connected_iff.mpr ⟨verified.carries, verified.joined⟩⟩
    have before := TaskGraph.mem_precedence.mpr ⟨junction, listed, rfl, target, among, rfl⟩
    refine verified.respects.idxOf_lt before (verified.order.mem_iff.mpr ?_)
    exact List.mem_range.mpr (verified.task_lt listed (List.mem_map_of_mem among))
  · obtain ⟨carries, joined⟩ := TaskGraph.connected_iff.mp connected
    rw [exists_create_iff, TaskGraph.verify_eq carries joined]
    exact TaskGraph.order_isOk_iff (.of_carries numbered carries)

/-! ## Two inputs fed by one output, and a task that feeds itself -/

def relay (id inputs outputs : Nat) : Task Rat :=
  { id
    operator :=
      { name := "relay", kind := "relay", platform := .inProcess, epoch := 0, inputs, outputs
        inputForms := fun _ => [.stream], outputForms := fun _ => [.stream]
        evaluate := fun context _ outputs workspace =>
          .ok (context.evaluation 0 (outputs.map (Channel.acceptRows · [])), workspace) }
    origin := [], candidate := 0, rule := "relay", estimate := none }

def pairedTasks : List (Task Rat) := [relay 0 2 1, relay 1 0 1, relay 2 1 0]

def pairedJunctions : List (Junction Rat) :=
  [⟨⟨0, 0⟩, .stream, [⟨⟨2, 0⟩, [], false, 0⟩]⟩,
    ⟨⟨1, 0⟩, .stream, [⟨⟨0, 0⟩, [], false, 0⟩, ⟨⟨0, 1⟩, [.collect, .stream], false, 0⟩]⟩]

def loopJunctions : List (Junction Rat) := [⟨⟨0, 0⟩, .stream, [⟨⟨0, 0⟩, [], false, 0⟩]⟩]

theorem create_paired : create pairedTasks pairedJunctions ⟨0, 0, [], []⟩ 0 =
    .ok ⟨pairedTasks, pairedJunctions, [1, 0, 2], ⟨0, 0, [], []⟩, 0⟩ := by
  have numbers : TaskGraph.numbers pairedTasks pairedJunctions = [0, 1, 2] :=
    List.mergeSort_of_pairwise (by decide)
  have order : TaskGraph.order pairedTasks pairedJunctions = .ok [1, 0, 2] := by
    rw [TaskGraph.order, numbers]
    rfl
  have checked : pairedJunctions.forM (TaskGraph.checkJunction pairedTasks) = .ok () := by
    decide +kernel
  have joined : pairedTasks.forM (TaskGraph.checkTask pairedJunctions) = .ok () := by
    decide +kernel
  rw [create, TaskGraph.verify, checked, joined, order]
  rfl

/-- The task that is read is put first; a task that feeds itself is connected and yet refused. -/
theorem connected_of_create_paired :
    (∃ plan, create pairedTasks pairedJunctions ⟨0, 0, [], []⟩ 0 = .ok plan ∧
      plan.order.Perm [0, 1, 2] ∧ plan.order.idxOf 1 < plan.order.idxOf 0) ∧
    TaskGraph.Connected [relay 0 1 1] loopJunctions ∧
    ¬ ∃ plan, create [relay 0 1 1] loopJunctions ⟨0, 0, [], []⟩ 0 = .ok plan := by
  have connected : TaskGraph.Connected [relay 0 1 1] loopJunctions := by
    refine TaskGraph.connected_iff.mpr ⟨fun junction listed => ?_, fun task listed => ?_⟩
    · obtain rfl := List.mem_singleton.mp listed
      exact TaskGraph.checkJunction_ok.mp (by decide +kernel)
    · obtain rfl := List.mem_singleton.mp listed
      exact TaskGraph.checkTask_ok.mp (by decide +kernel)
  have places : pairedTasks.map (·.id) = List.range pairedTasks.length := rfl
  have place : [relay 0 1 1].map (·.id) = List.range 1 := rfl
  refine ⟨⟨_, create_paired, ?_⟩, connected, fun accepted => ?_⟩
  · obtain ⟨whole, before, -⟩ := (connected_of_create places _ _).1 _ create_paired
    exact ⟨whole, before _ (List.mem_cons_of_mem _ List.mem_cons_self) _ List.mem_cons_self⟩
  · have acyclic := ((connected_of_create place _ _).2.1 connected).mp accepted
    have loop : (0, 0) ∈ TaskGraph.precedence loopJunctions := List.mem_cons_self
    exact acyclic 0 (.single loop)

end ExecutionPlan

end CrossPlan
