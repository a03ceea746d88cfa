import CrossPlan.Proofs.Execution.Graph
import CrossPlan.Proofs.Execution.Ledger

/-!
# Channels over a whole run

In a plan whose junctions lead from declared outputs to declared inputs, a run that ends well has
made one channel for each connection and one for each conversion on it, and nothing else.  Every
declared input got one of them, its task took it once, and its rows are those that the other end of
the connection put out.
-/

set_option autoImplicit false

namespace CrossPlan

open Sequence RunStep

variable {α : Type}

namespace TaskGraph

def inputSlots (tasks : List (Task α)) : List TaskSlot :=
  tasks.flatMap fun task => (List.range task.operator.inputs).map (TaskSlot.mk task.id)

def outputSlots (tasks : List (Task α)) : List TaskSlot :=
  tasks.flatMap fun task => (List.range task.operator.outputs).map (TaskSlot.mk task.id)

structure Declared (tasks : List (Task α)) (junctions : List (Junction α)) : Prop where
  producers : ∀ slot ∈ carried junctions, slot ∈ outputSlots tasks
  consumers : ∀ slot ∈ fed junctions, slot ∈ inputSlots tasks

variable {tasks : List (Task α)} {junctions : List (Junction α)}

theorem mem_inputSlots {slot : TaskSlot} : slot ∈ inputSlots tasks ↔
    ∃ task ∈ tasks, slot.task = task.id ∧ slot.slot < task.operator.inputs := by
  simp only [inputSlots, List.mem_flatMap, List.mem_map, List.mem_range]
  constructor
  · rintro ⟨task, listed, place, within, rfl⟩
    exact ⟨task, listed, rfl, within⟩
  · rintro ⟨task, listed, own, within⟩
    exact ⟨task, listed, slot.slot, within, by rw [← own]⟩

theorem mem_outputSlots {slot : TaskSlot} : slot ∈ outputSlots tasks ↔
    ∃ task ∈ tasks, slot.task = task.id ∧ slot.slot < task.operator.outputs := by
  simp only [outputSlots, List.mem_flatMap, List.mem_map, List.mem_range]
  constructor
  · rintro ⟨task, listed, place, within, rfl⟩
    exact ⟨task, listed, rfl, within⟩
  · rintro ⟨task, listed, own, within⟩
    exact ⟨task, listed, slot.slot, within, by rw [← own]⟩

theorem nodup_slots (distinct : (tasks.map (·.id)).Nodup) (count : Task α → Nat) :
    (tasks.flatMap fun task => (List.range (count task)).map (TaskSlot.mk task.id)).Nodup := by
  rw [List.nodup_flatMap]
  constructor
  · intro task _
    exact List.nodup_range.map fun slot slot' same => congrArg TaskSlot.slot same
  · refine (List.pairwise_map.mp distinct).imp ?_
    intro task task' different slot one two
    obtain ⟨_, -, rfl⟩ := List.mem_map.mp one
    obtain ⟨_, -, same⟩ := List.mem_map.mp two
    exact different (congrArg TaskSlot.task same).symm

theorem map_consumer_connections :
    (connections junctions).map (fun connection => connection.2.consumer) = fed junctions := by
  rw [connections, fed, List.map_flatMap]
  refine List.flatMap_congr fun junction _ => ?_
  rw [List.map_map]
  rfl

/-! ## Slots that are joined -/

namespace Accepted

variable {order : List Nat}

/-- No two tasks have the same number, as there would be too few of them for the order. -/
theorem nodup_ids (accepted : Accepted tasks junctions order)
    (declared : Declared tasks junctions) : (tasks.map (·.id)).Nodup := by
  have among : order ⊆ tasks.map (·.id) := by
    intro number listed
    rcases accepted.known number listed with own | ⟨slot, feeds, rfl⟩
    · exact own
    · obtain ⟨task, present, own, -⟩ := mem_inputSlots.mp (declared.consumers slot feeds)
      rw [own]
      exact List.mem_map_of_mem present
  have all := (List.subperm_of_subset accepted.distinct among).perm_of_length_le (by
    rw [List.length_map, accepted.length])
  exact all.nodup_iff.mp accepted.distinct

theorem fed_perm (accepted : Accepted tasks junctions order)
    (declared : Declared tasks junctions) : (fed junctions).Perm (inputSlots tasks) := by
  have once : ∀ slot ∈ inputSlots tasks, (fed junctions).count slot = 1 := by
    intro slot listed
    obtain ⟨task, present, own, within⟩ := mem_inputSlots.mp listed
    have slotted : (⟨task.id, slot.slot⟩ : TaskSlot) = slot := by rw [← own]
    exact slotted ▸ (accepted.joined task present).fed slot.slot within
  have distinct : (fed junctions).Nodup :=
    List.nodup_iff_count_le_one.mpr fun slot => by
      by_cases feeds : slot ∈ fed junctions
      · exact (once slot (declared.consumers slot feeds)).le
      · rw [List.count_eq_zero.mpr feeds]
        exact Nat.zero_le 1
  refine (List.perm_ext_iff_of_nodup distinct
    (nodup_slots (accepted.nodup_ids declared) _)).mpr fun slot => ⟨declared.consumers slot, ?_⟩
  intro listed
  exact List.count_pos_iff.mp ((once slot listed).symm ▸ Nat.one_pos)

theorem nodup_carried (accepted : Accepted tasks junctions order)
    (declared : Declared tasks junctions) : (carried junctions).Nodup := by
  refine List.nodup_iff_count_le_one.mpr fun slot => ?_
  by_cases here : slot ∈ carried junctions
  · obtain ⟨task, present, own, within⟩ := mem_outputSlots.mp (declared.producers slot here)
    have slotted : (⟨task.id, slot.slot⟩ : TaskSlot) = slot := by rw [← own]
    exact (slotted ▸ (accepted.joined task present).carried slot.slot within).le
  · rw [List.count_eq_zero.mpr here]
    exact Nat.zero_le 1

end Accepted

end TaskGraph

/-- A turn leaves one channel at each slot that the junctions of its task feed. -/
theorem Turn.Fair.slots_left {plan : ExecutionPlan α} {turn : Turn α} (fair : turn.Fair plan) :
    turn.left.map (·.1) = TaskGraph.fed (plan.outlets turn.task) := by
  rw [← TaskGraph.map_consumer_connections, eq_comm, ← List.forall₂_eq_eq_eq,
    List.forall₂_map_left_iff, List.forall₂_map_right_iff]
  refine fair.sent.imp ?_
  rintro connection entry ⟨made, -, -, delivered⟩
  exact delivered.consumer.symm

theorem RunStep.leftover_ok {state after : RunState α}
    (run : (leftover : RunStep α Unit).run.run state = (.ok (), after)) :
    after = state ∧ state.pending = [] := by
  rw [leftover, run_bind, run_get] at run
  dsimp only at run
  split at run
  · cases run
  · next sorted =>
    cases run
    refine ⟨rfl, List.eq_nil_iff_forall_not_mem.mpr fun entry waits => ?_⟩
    have listed := List.mem_map_of_mem (f := (·.1)) waits
    rw [← List.mem_mergeSort, sorted] at listed
    cases listed

namespace Junction

theorem length_routed {junction : Junction α} (read : junction.targets ≠ []) :
    (junction.original :: junction.routed).length =
      Count.total (junction.targets.map fun target => 1 + target.conversions.length) := by
  have converted : (junction.targets.flatMap fun target =>
      target.converted junction.producer.task).length =
        Count.total (junction.targets.map fun target => target.conversions.length) := by
    rw [length_flatMap_total]
    simp only [JunctionTarget.converted, List.length_map]
  have positive := List.length_pos_iff.mpr read
  rw [List.length_cons, routed, List.length_append, converted, copied, List.length_map,
    List.length_dropLast, total_map_one_add]
  omega

end Junction

namespace ExecutionPlan

open TaskGraph

/-! ## The junctions that tasks open -/

variable {plan : ExecutionPlan α} {turns : List (Turn α)} {state : RunState α}

theorem map_producer_outlets {task : Task α} (opens : plan.Open task) :
    (plan.outlets task).map (·.producer) =
      (List.range task.operator.outputs).map (TaskSlot.mk task.id) := by
  rw [eq_comm, ← List.forall₂_eq_eq_eq, List.forall₂_map_left_iff, List.forall₂_map_right_iff]
  exact List.Forall₂.imp (fun slot junction found => (producer_of_junctionFrom? found).symm) opens

theorem outlets_perm (opens : ∀ task ∈ plan.tasks, plan.Open task)
    (ids : (plan.tasks.map (·.id)).Nodup) (carriers : (carried plan.junctions).Nodup)
    (producers : ∀ slot ∈ carried plan.junctions, slot ∈ outputSlots plan.tasks) :
    (plan.tasks.flatMap plan.outlets).Perm plan.junctions := by
  have slots : (plan.tasks.flatMap plan.outlets).map (·.producer) = outputSlots plan.tasks := by
    rw [List.map_flatMap, outputSlots]
    exact List.flatMap_congr fun task listed => map_producer_outlets (opens task listed)
  have distinct : (plan.tasks.flatMap plan.outlets).Nodup := by
    refine List.Nodup.of_map (·.producer) ?_
    rw [slots]
    exact nodup_slots ids _
  refine (List.perm_ext_iff_of_nodup distinct (List.Nodup.of_map _ carriers)).mpr ?_
  intro junction
  rw [List.mem_flatMap]
  constructor
  · rintro ⟨task, -, listed⟩
    obtain ⟨slot, -, found⟩ := mem_outlets.mp listed
    exact mem_of_junctionFrom? found
  · intro present
    have carrier : junction.producer ∈ carried plan.junctions := List.mem_map_of_mem present
    obtain ⟨task, listed, own, within⟩ := mem_outputSlots.mp (producers _ carrier)
    refine ⟨task, listed, mem_outlets.mpr ⟨junction.producer.slot, within, ?_⟩⟩
    have slotted : (⟨task.id, junction.producer.slot⟩ : TaskSlot) = junction.producer := by
      rw [← own]
    rw [slotted]
    obtain ⟨other, found⟩ : ∃ other, plan.junctionFrom? junction.producer = some other := by
      rw [← Option.isSome_iff_exists, junctionFrom?, List.find?_isSome]
      exact ⟨junction, present, beq_self_eq_true _⟩
    have same := List.inj_on_of_nodup_map carriers (mem_of_junctionFrom? found) present
      (producer_of_junctionFrom? found)
    rw [found, same]

theorem turned_perm {order : List Nat} (distinct : order.Nodup)
    (length : order.length = plan.tasks.length)
    (told : List.Forall₂ (fun number turn => plan.tasks[number]? = some (Turn.task turn)) order
      turns) : (turns.map (·.task)).Perm plan.tasks := by
  have within : order ⊆ List.range plan.tasks.length := by
    intro number listed
    obtain ⟨turn, -, found⟩ := mem_left told listed
    exact List.mem_range.mpr (List.getElem?_eq_some_iff.mp found).1
  have all : order.Perm (List.range plan.tasks.length) :=
    (List.subperm_of_subset distinct within).perm_of_length_le (by rw [List.length_range, length])
  have first : order.map (fun number => plan.tasks[number]?) =
      (turns.map (·.task)).map some := by
    rw [← List.forall₂_eq_eq_eq, List.map_map, List.forall₂_map_left_iff,
      List.forall₂_map_right_iff]
    exact told
  refine (List.map_perm_map_iff (Option.some_injective (Task α))).mp ?_
  rw [← first, ← map_getElem?_range]
  exact all.map _

/-! ## What a run conserves -/

/-- The channels of a run that ended well. -/
structure Conserved (plan : ExecutionPlan α) (turns : List (Turn α)) (state : RunState α) :
    Prop where
  /-- each task had one turn -/
  tasks : (turns.map (·.task)).Perm plan.tasks
  numbered : state.created.map (·.id) = List.range state.created.length
  recorded : (state.created.map CreatedChannel.making).Perm
    (plan.junctions.flatMap fun junction => junction.original :: junction.routed)
  count : state.created.length = Count.total ((connections plan.junctions).map fun connection =>
    1 + connection.2.conversions.length)
  slots : (inputSlots plan.tasks).Nodup
  received : ((turns.flatMap Turn.left).map (·.1)).Perm (inputSlots plan.tasks)
  different : ((turns.flatMap Turn.left).map fun entry => entry.2.id).Nodup
  consumed : (turns.flatMap Turn.consumed).Perm (turns.flatMap Turn.left)
  /-- what a task put on an output is what the other task took -/
  carried : ∀ junction ∈ plan.junctions, ∀ target ∈ junction.targets,
    ∃ producing ∈ turns, ∃ consuming ∈ turns, ∃ made arrived,
      producing.task.id = junction.producer.task ∧
      producing.evaluation.produced[junction.producer.slot]? = some made ∧
      consuming.task.id = target.consumer.task ∧
      consuming.taken[target.consumer.slot]? = some arrived ∧
      arrived.form = Conversion.endOf junction.form target.conversions ∧
      arrived.content.Perm made.content

/-- The books of a run in which all tasks had their turns and nothing was left over. -/
theorem conserved_of_ledger (accepted : Accepted plan.tasks plan.junctions plan.order)
    (declared : Declared plan.tasks plan.junctions) (ledger : Ledger plan plan.order turns state)
    (nothing : state.pending = []) : plan.Conserved turns state := by
  have ids := accepted.nodup_ids declared
  have tasks : (turns.map (·.task)).Perm plan.tasks :=
    turned_perm accepted.distinct accepted.length ledger.tasks
  have opens : ∀ task ∈ plan.tasks, plan.Open task := by
    intro task listed
    obtain ⟨turn, had, rfl⟩ := List.mem_map.mp (tasks.mem_iff.mpr listed)
    exact (ledger.fair turn had).opens
  have outlets : (turns.flatMap fun turn => plan.outlets turn.task).Perm plan.junctions := by
    have split : (turns.flatMap fun turn => plan.outlets turn.task) =
        (turns.map (·.task)).flatMap plan.outlets := by
      rw [List.flatMap_map]
    rw [split]
    exact (tasks.flatMap_right _).trans
      (outlets_perm opens ids (accepted.nodup_carried declared) declared.producers)
  have recorded : (state.created.map CreatedChannel.making).Perm
      (plan.junctions.flatMap fun junction => junction.original :: junction.routed) := by
    rw [ledger.created, Making.map_making_numbered]
    have each : (turns.flatMap fun turn => plan.makings turn.task).Perm
        (turns.flatMap fun turn => (plan.outlets turn.task).flatMap fun junction =>
          junction.original :: junction.routed) :=
      List.Perm.flatMap_left turns fun turn _ => List.map_append_flatMap_perm _ _ _
    rw [← List.flatMap_assoc] at each
    exact each.trans (outlets.flatMap_right _)
  have consumed : (turns.flatMap Turn.consumed).Perm (turns.flatMap Turn.left) := by
    have balanced := ledger.balanced
    rw [nothing, List.append_nil] at balanced
    exact balanced.symm
  have received : ((turns.flatMap Turn.left).map (·.1)).Perm (inputSlots plan.tasks) := by
    have each : (turns.flatMap Turn.left).map (·.1) =
        turns.flatMap fun turn => fed (plan.outlets turn.task) := by
      rw [List.map_flatMap]
      exact List.flatMap_congr fun turn listed => (ledger.fair turn listed).slots_left
    rw [each]
    simp only [fed]
    rw [← List.flatMap_assoc]
    exact (outlets.flatMap_right _).trans (accepted.fed_perm declared)
  refine ⟨tasks, ?_, recorded, ?_, nodup_slots ids _, received, ledger.owned.nodup, consumed, ?_⟩
  · rw [ledger.created, Making.map_id_numbered, Making.length_numbered, List.range_eq_range']
  · have count := recorded.length_eq
    rw [List.length_map, length_flatMap_total] at count
    rw [count, connections, List.map_flatMap, total_flatMap]
    refine congrArg Count.total (List.map_congr_left fun junction listed => ?_)
    rw [Junction.length_routed (accepted.read junction listed), List.map_map]
    rfl
  · intro junction present target among
    obtain ⟨producing, had, opened⟩ := List.mem_flatMap.mp (outlets.mem_iff.mpr present)
    have connected : (junction, target) ∈ connections (plan.outlets producing.task) :=
      List.mem_flatMap.mpr ⟨junction, opened, List.mem_map_of_mem among⟩
    obtain ⟨⟨slot, arrived⟩, left, made, produced, form, delivered⟩ :=
      mem_left (ledger.fair producing had).sent connected
    obtain ⟨place, -, found⟩ := mem_outlets.mp opened
    have passed : (slot, arrived) ∈ turns.flatMap Turn.consumed :=
      consumed.mem_iff.mpr (List.mem_flatMap.mpr ⟨producing, had, left⟩)
    obtain ⟨consuming, had', took⟩ := List.mem_flatMap.mp passed
    obtain ⟨own, here⟩ := Turn.mem_consumed.mp took
    obtain rfl : slot = target.consumer := delivered.consumer
    refine ⟨producing, had, consuming, had', made, arrived, ?_,
      List.mk_mem_zipIdx_iff_getElem?.mp produced, own.symm, here, ?_, delivered.content⟩
    · rw [producer_of_junctionFrom? found]
    · exact form ▸ delivered.form

variable [Quantity α]

/-- Channels are conserved over a run that ends well: each connection of the plan took one channel
and one for each conversion, and each declared input was handed one channel, which its task took
once, with the rows that were put out for it. -/
theorem conserved_of_runIn {tasks : List (Task α)} {junctions : List (Junction α)} {score : Score α}
    {epoch : Nat} (accepted : create tasks junctions score epoch = .ok plan)
    (declared : Declared tasks junctions) (returns : ∀ task ∈ tasks, task.operator.Returns)
    {settings : RunSettings α} {workspace : Workspace}
    (run : plan.runIn settings workspace = (.ok (), state)) :
    ∃ turns, (RunStep.turns settings plan plan.order).run.run (start workspace) =
        (.ok turns, state) ∧ plan.Conserved turns state := by
  obtain ⟨order, verified, made⟩ := bind_ok_iff.mp accepted
  cases made
  change (runPlan settings _).run.run (start workspace) = _ at run
  rw [runPlan_eq, run_bind] at run
  split at run
  · next turns between told =>
    obtain ⟨rfl, nothing⟩ := leftover_ok run
    have ledger := Ledger.of_turns returns told
    exact ⟨turns, told, conserved_of_ledger (accepted_of_verify verified) declared ledger nothing⟩
  · cases run

/-! ## A plan with two readers -/

def forkTasks : List (Task Rat) :=
  [{ id := 0, operator := (BoundAction.collectionSource [⟨[("n", .int 1)]⟩]).toOperator "source"
       .inProcess 0
     origin := [0], candidate := 0, rule := "source", estimate := none },
    { id := 1, operator := (BoundAction.sink (.memory "near")).toOperator "near" .inProcess 0
      origin := [1], candidate := 1, rule := "near", estimate := none },
    { id := 2, operator := (BoundAction.sink (.memory "far")).toOperator "far" .distributed 0
      origin := [2], candidate := 2, rule := "far", estimate := none }]

def forkJunctions : List (Junction Rat) :=
  [⟨⟨0, 0⟩, .stream,
    [⟨⟨1, 0⟩, [], false, 0⟩, ⟨⟨2, 0⟩, [.collect, .parallelize], true, 0⟩]⟩]

def forkPlan : ExecutionPlan Rat :=
  ⟨forkTasks, forkJunctions, [0, 1, 2], ⟨0, 1, [], []⟩, 0⟩

theorem fork_accepted : create forkTasks forkJunctions ⟨0, 1, [], []⟩ 0 = .ok forkPlan := by
  have numbers : TaskGraph.numbers forkTasks forkJunctions = [0, 1, 2] :=
    List.mergeSort_of_pairwise (by decide)
  have order : TaskGraph.order forkTasks forkJunctions = .ok [0, 1, 2] := by
    rw [TaskGraph.order, numbers]
    rfl
  have checked : forkJunctions.forM (TaskGraph.checkJunction forkTasks) = .ok () := by
    decide +kernel
  have joined : forkTasks.forM (TaskGraph.checkTask forkJunctions) = .ok () := by
    decide +kernel
  rw [create, TaskGraph.verify, checked, joined, order]
  rfl

theorem fork_declared : Declared forkTasks forkJunctions := by
  constructor <;> decide

theorem fork_run : (forkPlan.runIn ⟨4, fun _ _ => 0⟩ .empty).1 = .ok () := by
  decide +kernel

/-- Four channels are made for the row: the one that was put out, a copy and two conversions. -/
theorem conserved_of_runIn_fork :
    (forkPlan.runIn ⟨4, fun _ _ => 0⟩ .empty).1 = .ok () ∧ ∃ turns state,
      forkPlan.runIn ⟨4, fun _ _ => 0⟩ .empty = (.ok (), state) ∧
        forkPlan.Conserved turns state ∧ state.created.length = 4 := by
  refine ⟨fork_run, ?_⟩
  have returns : ∀ task ∈ forkTasks, task.operator.Returns := by
    intro task listed
    rcases List.mem_cons.mp listed with rfl | listed
    · exact BoundAction.returns _ _ _ _
    rcases List.mem_pair.mp listed with rfl | rfl
    · exact BoundAction.returns _ _ _ _
    · exact BoundAction.returns _ _ _ _
  cases run : forkPlan.runIn ⟨4, fun _ _ => 0⟩ .empty with
  | mk result state =>
    have ended := fork_run
    rw [run] at ended
    obtain rfl : result = .ok () := ended
    obtain ⟨turns, -, conserved⟩ := conserved_of_runIn fork_accepted fork_declared returns run
    exact ⟨turns, state, rfl, conserved, conserved.count⟩

end ExecutionPlan

end CrossPlan
