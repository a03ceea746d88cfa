import CrossPlan.Proofs.Execution.Simulation
import CrossPlan.Proofs.Rule.Coverage
import CrossPlan.Proofs.Selection.Building

/-!
# The choice of candidates does not change results

Whichever candidates are chosen, the rows on the way between their tasks are those that the plan
means to pass there.  So the sinks leave what the plan leaves when it is evaluated operator by
operator, in another order perhaps.
-/

set_option autoImplicit false

namespace CrossPlan

open Sequence RunStep

/-! ## Candidates at work -/

namespace Candidate.Performs

variable {α : Type} {plan : Plan} {lines : String → List Record} {candidate : Candidate α}
  {action : BoundAction}

theorem rowsUnder_eq (performs : candidate.Performs plan lines action) (name : String) :
    rowsUnder name (candidate.matched.nodes.findSome? (plan.written? lines)) =
      candidate.matched.nodes.flatMap fun id => rowsUnder name (plan.written? lines id) := by
  rcases performs.written with ⟨-, none⟩ | ⟨_, id, -, nodes, -⟩
  · rw [List.findSome?_eq_none_iff.mpr none]
    refine (List.flatMap_eq_nil_iff.mpr fun id listed => ?_).symm
    rw [none id listed]
    rfl
  · rw [nodes, List.findSome?_singleton, List.flatMap_singleton]

/-- Given the rows that arrive at the inputs, the operator of a candidate fills its outputs with
those that leave them, and leaves its result. -/
theorem evaluate (performs : candidate.Performs plan lines action) {workspace : Workspace}
    (reads : plan.Reads workspace lines) {inputs outputs : List Channel}
    (held : List.Forall₂ (fun rows channel => Holds channel rows)
      (candidate.matched.inputs.map (plan.arriving lines)) inputs)
    (count : outputs.length = action.outputs) (name : String) (platform : Platform)
    (context : TaskContext α) :
    ∃ evaluation after,
      action.evaluate name platform context inputs outputs workspace = .ok (evaluation, after) ∧
      Writes (candidate.matched.nodes.findSome? (plan.written? lines)) workspace after ∧
      List.Forall₂ (fun output made => made.form = output.form) outputs evaluation.produced ∧
      ∀ (slot : Nat) made, evaluation.produced[slot]? = some made →
        ∃ output, candidate.matched.outputs[slot]? = some output ∧
          Holds made (plan.rows lines output.operator) := by
  have filled : ∀ channel ∈ inputs, channel.produced = true := by
    intro channel listed
    obtain ⟨_, -, holds⟩ := mem_right held listed
    exact holds.produced
  have length : inputs.length = action.inputs := by
    rw [← held.length_eq, List.length_map, performs.inputs]
  have contents : List.Forall₂ List.Perm (inputs.map Channel.content)
      (candidate.matched.inputs.map (plan.arriving lines)) :=
    List.forall₂_map_left_iff.mpr (List.Forall₂.flip (held.imp fun _ _ holds => holds.content))
  have same : (action.meaning lines (inputs.map Channel.content)).Perm _ :=
    action.meaning_perm contents
  rcases performs.written with ⟨giving, none⟩ | ⟨result, id, rfl, nodes, written⟩
  · have single : action.outputs = 1 := by
      cases action <;> first | rfl | exact absurd rfl giving
    rw [single] at count
    obtain ⟨output, rfl⟩ := List.length_eq_one_iff.mp count
    have addresses : ∀ url, action = .textSource url →
        BoundAction.readLines workspace url = .ok (lines url) := by
      intro url source
      obtain ⟨operator, listed, here⟩ := performs.addresses url source
      exact reads operator listed url here
    obtain ⟨evaluation, made, success, produced, form, full, content⟩ :=
      BoundAction.evaluate_fills performs.supplied giving addresses length filled name platform
        context
    refine ⟨evaluation, workspace, success, ?_, ?_, ?_⟩
    · rw [List.findSome?_eq_none_iff.mpr none]
      exact .nothing workspace
    · rw [produced]
      exact .cons form .nil
    · intro slot made' here
      rw [produced] at here
      obtain ⟨rfl, rfl⟩ : slot = 0 ∧ made = made' := by
        cases slot <;> simp_all
      have within : 0 < candidate.matched.outputs.length := by
        rw [performs.outputs, single]
        exact Nat.one_pos
      refine ⟨_, List.getElem?_eq_getElem within, full, ?_⟩
      rw [performs.rows _ (List.getElem_mem within)]
      exact content.trans same
  · obtain rfl := List.length_eq_zero_iff.mp count
    obtain ⟨evaluation, rows, success, produced, delivered⟩ :=
      BoundAction.evaluate_delivers length filled name platform context
    refine ⟨evaluation, _, success, ?_, ?_, ?_⟩
    · rw [nodes, List.findSome?_singleton, written]
      exact .append workspace result (delivered ▸ same)
    · rw [produced]
      exact .nil
    · intro slot made here
      rw [produced] at here
      cases here

end Candidate.Performs

namespace Problem

variable {α : Type} {problem : Problem α} {full selection chosen : List Nat}
  {tasks : List (Task α)} {numbers : TaskNumbers} {wires : List Wire}
  {junctions : List (Junction α)} {lines : String → List Record}

/-! ## The rows of tasks -/

/-- Candidates stand at the places that they are numbered with, and do what the operators that they
cover do. -/
structure Sound (problem : Problem α) (lines : String → List Record) : Prop where
  numbered : ∀ (place : Nat) (candidate : Candidate α),
    problem.candidates[place]? = some candidate → candidate.id = place
  performs : ∀ candidate ∈ problem.candidates, ∃ action,
    candidate.Performs problem.plan lines action

namespace Sound

theorem single (sound : problem.Sound lines) {place : Nat} {found : Candidate α}
    (known : problem.candidates[place]? = some found) :
    ∃ operator, found.replacement = .single operator := by
  obtain ⟨action, performs⟩ := sound.performs found (List.mem_of_getElem? known)
  obtain ⟨name, platform, epoch, made⟩ := performs.made
  exact ⟨_, made⟩

theorem unlinked (sound : problem.Sound lines) :
    ∀ candidate ∈ problem.candidates, candidate.replacement.links = [] := by
  intro candidate present
  obtain ⟨place, known⟩ := List.mem_iff_getElem?.mp present
  obtain ⟨operator, made⟩ := sound.single known
  rw [made]
  rfl

theorem linksCarried (sound : problem.Sound lines) (selection : List Nat) :
    problem.LinksCarried selection := by
  intro candidate _ found known link present
  rw [sound.unlinked found (List.mem_of_getElem? known)] at present
  cases present

end Sound

def candidateOf? (problem : Problem α) (tasks : List (Task α)) (number : Nat) :
    Option (Candidate α) :=
  tasks[number]?.bind fun task => problem.candidates[task.candidate]?

/-- The rows at the slots of the plan that the slots of tasks stand for. -/
def rowFlow (problem : Problem α) (tasks : List (Task α)) (lines : String → List Record) :
    RowFlow where
  leaving := fun slot =>
    match (problem.candidateOf? tasks slot.task).bind (·.matched.outputs[slot.slot]?) with
    | some output => problem.plan.rows lines output.operator
    | none => []
  arriving := fun slot =>
    match (problem.candidateOf? tasks slot.task).bind (·.matched.inputs[slot.slot]?) with
    | some input => problem.plan.arriving lines input
    | none => []
  written := fun number => (problem.candidateOf? tasks number).bind fun found =>
    found.matched.nodes.findSome? (problem.plan.written? lines)

/-- A task is the only one of its candidate. -/
structure Represents (problem : Problem α) (selection : List Nat) (numbers : TaskNumbers)
    (number : Nat) (task : Task α) (found : Candidate α) : Prop where
  chosen : task.candidate ∈ selection
  known : problem.candidates[task.candidate]? = some found
  operators : found.replacement.operators = [task.operator]
  number : number = taskAt numbers task.candidate 0

namespace Represents

variable {number : Nat} {task : Task α} {found : Candidate α}

theorem candidateOf?_eq (represents : problem.Represents selection numbers number task found)
    (here : tasks[number]? = some task) : problem.candidateOf? tasks number = some found := by
  rw [candidateOf?, here, Option.bind_some, represents.known]

theorem arriving_inputs (represents : problem.Represents selection numbers number task found)
    (here : tasks[number]? = some task) :
    (List.range found.matched.inputs.length).map
        (fun slot => (problem.rowFlow tasks lines).arriving ⟨number, slot⟩) =
      found.matched.inputs.map (problem.plan.arriving lines) := by
  refine List.ext_getElem (by simp) fun slot within within' => ?_
  have inside : slot < found.matched.inputs.length := by simpa using within'
  simp only [List.getElem_map, List.getElem_range, rowFlow, represents.candidateOf?_eq here,
    Option.bind_some, List.getElem?_eq_getElem inside]

theorem leaving_output (represents : problem.Represents selection numbers number task found)
    (here : tasks[number]? = some task) {slot : Nat} {output : SlotRef}
    (listed : found.matched.outputs[slot]? = some output) :
    (problem.rowFlow tasks lines).leaving ⟨number, slot⟩ =
      problem.plan.rows lines output.operator := by
  simp only [rowFlow, represents.candidateOf?_eq here, Option.bind_some, listed]

theorem written_eq (represents : problem.Represents selection numbers number task found)
    (here : tasks[number]? = some task) : (problem.rowFlow tasks lines).written number =
      found.matched.nodes.findSome? (problem.plan.written? lines) := by
  simp only [rowFlow, represents.candidateOf?_eq here, Option.bind_some]

end Represents

variable [Quantity α]

/-! ## The task graph can be run -/

namespace Laid

theorem produced (laid : problem.Laid full selection chosen tasks numbers wires junctions)
    {junction : Junction α} (present : junction ∈ junctions) :
    ∃ task, tasks[junction.producer.task]? = some task ∧
      junction.producer.slot < task.operator.outputs := by
  obtain ⟨wire, here, realizes⟩ := mem_right laid.realized present
  obtain ⟨input, -, wired⟩ := laid.exists_wired here
  obtain ⟨listed, operator, known, within⟩ := laid.operator_of_output wired
  obtain ⟨task, found, rfl⟩ := laid.assembled.task _ listed _ _ known
  rw [realizes.producer]
  exact ⟨task, found, within⟩

theorem consumed (laid : problem.Laid full selection chosen tasks numbers wires junctions)
    {junction : Junction α} (present : junction ∈ junctions) {target : JunctionTarget α}
    (among : target ∈ junction.targets) :
    ∃ task, tasks[target.consumer.task]? = some task ∧
      target.consumer.slot < task.operator.inputs := by
  obtain ⟨wire, here, realizes⟩ := mem_right laid.realized present
  obtain ⟨input, member, same, -⟩ := mem_right realizes.targets among
  obtain ⟨listed, operator, known, within⟩ :=
    laid.operator_of_input (laid.wired_of_mem here member)
  obtain ⟨task, found, rfl⟩ := laid.assembled.task _ listed _ _ known
  rw [same]
  exact ⟨task, found, within⟩

theorem chained (laid : problem.Laid full selection chosen tasks numbers wires junctions)
    {junction : Junction α} (present : junction ∈ junctions) {target : JunctionTarget α}
    (among : target ∈ junction.targets) :
    ∃ arrived, Conversion.chains target.conversions junction.form arrived = true := by
  obtain ⟨wire, -, realizes⟩ := mem_right laid.realized present
  obtain ⟨_, -, -, _, arrived, -, chained, -⟩ := mem_right realizes.targets among
  exact ⟨arrived, chained⟩

theorem runnable (laid : problem.Laid full selection chosen tasks numbers wires junctions)
    {order : List Nat} (ordered : TaskGraph.order tasks junctions = .ok order) (score : Score α)
    (epoch : Nat) : (ExecutionPlan.mk tasks junctions order score epoch).Runnable where
  numbered := laid.assembled.ids
  order := TaskGraph.order_perm laid.closed ordered
  respects := TaskGraph.respects_order ordered
  joined := laid.joined laid.connects.producers
  fedOnce := laid.nodup_fed
  carriedOnce := laid.nodup_carried laid.connects.producers
  read := fun junction present => (laid.carries junction present).read
  chained := fun _ present _ among => laid.chained present among
  produced := fun _ present => laid.produced present
  consumed := fun _ present _ among => laid.consumed present among

end Laid

/-! ## Rows between tasks -/

namespace Laid

theorem represents (laid : problem.Laid full selection chosen tasks numbers wires junctions)
    (sound : problem.Sound lines) {number : Nat} {task : Task α}
    (here : tasks[number]? = some task) :
    ∃ found, problem.Represents selection numbers number task found := by
  obtain ⟨candidate, listed, found, place, known, member, named, rfl⟩ :=
    laid.assembled.site number task here
  have same : task.candidate = candidate := named.trans (sound.numbered _ _ known)
  obtain ⟨operator, made⟩ := sound.single known
  rw [made] at member
  obtain ⟨rfl, single⟩ := Replacement.getElem?_single.mp member
  subst same
  refine ⟨found, (laid.listed _).mp listed, known, ?_, rfl⟩
  rw [made, Replacement.single, single]

theorem candidateOf?_eq (laid : problem.Laid full selection chosen tasks numbers wires junctions)
    (sound : problem.Sound lines) {candidate : Nat} {found : Candidate α}
    (among : candidate ∈ selection) (known : problem.candidates[candidate]? = some found) :
    problem.candidateOf? tasks (taskAt numbers candidate 0) = some found := by
  obtain ⟨operator, made⟩ := sound.single known
  have first : problem.operatorAt? candidate 0 = some operator := by
    rw [operatorAt?, known, Option.bind_some, made]
    rfl
  have listed := (laid.listed candidate).mpr among
  obtain ⟨task, here, -⟩ := laid.assembled.task candidate listed 0 _ first
  obtain ⟨found', represents⟩ := laid.represents sound here
  have first' : (problem.operatorAt? task.candidate 0).isSome = true := by
    rw [operatorAt?, represents.known, Option.bind_some, represents.operators]
    rfl
  have same := (laid.assembled.apart _ listed _ ((laid.listed _).mpr represents.chosen) 0 0
    (Option.isSome_of_eq_some first) first' represents.number).1
  rw [candidateOf?, here, Option.bind_some, ← same, known]

theorem leaving_eq (laid : problem.Laid full selection chosen tasks numbers wires junctions)
    (sound : problem.Sound lines) {slot : CandidateSlot} {output : SlotRef}
    (among : slot.candidate ∈ selection) (gives : problem.Gives slot output) :
    (problem.rowFlow tasks lines).leaving (slotAt numbers slot) =
      problem.plan.rows lines output.operator := by
  obtain ⟨found, known, place, here, there⟩ := gives
  obtain ⟨operator, made⟩ := sound.single known
  rw [made] at there
  obtain ⟨candidate, inner⟩ := slot
  obtain rfl := Replacement.getElem?_slotsOf there
  simp only [rowFlow, slotAt, laid.candidateOf?_eq sound among known, Option.bind_some, here]

theorem arriving_eq (laid : problem.Laid full selection chosen tasks numbers wires junctions)
    (sound : problem.Sound lines) {slot : CandidateSlot} {input : SlotRef}
    (among : slot.candidate ∈ selection) (takes : problem.Takes slot input) :
    (problem.rowFlow tasks lines).arriving (slotAt numbers slot) =
      problem.plan.arriving lines input := by
  obtain ⟨found, known, place, here, there⟩ := takes
  obtain ⟨operator, made⟩ := sound.single known
  rw [made] at there
  obtain ⟨candidate, inner⟩ := slot
  obtain rfl := Replacement.getElem?_slotsOf there
  simp only [rowFlow, slotAt, laid.candidateOf?_eq sound among known, Option.bind_some, here]

/-- What leaves a task arrives where its junction leads. -/
theorem leaving_eq_arriving
    (laid : problem.Laid full selection chosen tasks numbers wires junctions)
    (sound : problem.Sound lines) {junction : Junction α} (present : junction ∈ junctions)
    {target : JunctionTarget α} (among : target ∈ junction.targets) :
    (problem.rowFlow tasks lines).leaving junction.producer =
      (problem.rowFlow tasks lines).arriving target.consumer := by
  obtain ⟨wire, here, realizes⟩ := mem_right laid.realized present
  obtain ⟨input, member, same, -⟩ := mem_right realizes.targets among
  have wired := laid.wired_of_mem here member
  rw [realizes.producer, same]
  generalize wire.producer = output at wired ⊢
  cases wired with
  | @link candidate found link _ known linked =>
    obtain ⟨operator, made⟩ := sound.single known
    rw [made] at linked
    cases linked
  | edge source target edge gives takes =>
    rw [laid.leaving_eq sound source gives, laid.arriving_eq sound target takes,
      Plan.arriving_target laid.cover.formed edge]

theorem computed (laid : problem.Laid full selection chosen tasks numbers wires junctions)
    (sound : problem.Sound lines) {workspace : Workspace}
    (reads : problem.plan.Reads workspace lines) (settings : RunSettings α) (order : List Nat)
    (score : Score α) (epoch : Nat) :
    (problem.rowFlow tasks lines).Computed (ExecutionPlan.mk tasks junctions order score epoch)
      settings workspace where
  carried := fun _ present _ among => laid.leaving_eq_arriving sound present among
  computes := by
    intro number task here inputs outputs between held count files remote
    obtain ⟨found, represents⟩ := laid.represents sound here
    obtain ⟨action, performs⟩ := sound.performs found (List.mem_of_getElem? represents.known)
    obtain ⟨name, platform, epoch, made⟩ := performs.made
    have operators := represents.operators
    rw [made, Replacement.single, List.singleton_inj] at operators
    have taking : task.operator.inputs = found.matched.inputs.length := by
      rw [← operators, performs.inputs]
      rfl
    rw [taking] at held
    have arrived : List.Forall₂ (fun rows channel => Holds channel rows)
        (found.matched.inputs.map (problem.plan.arriving lines)) inputs := by
      rw [← represents.arriving_inputs here, List.forall₂_map_left_iff]
      exact held
    have giving : outputs.length = action.outputs := by
      rw [count, ← operators]
      rfl
    obtain ⟨evaluation, after, success, writes, forms, filled⟩ :=
      performs.evaluate (reads.congr files remote) arrived giving name platform
        (contextOf settings task)
    refine ⟨evaluation, after, ?_, ?_, forms, fun slot filling listed => ?_⟩
    · rw [← operators]
      exact success
    · rw [represents.written_eq here]
      exact writes
    · obtain ⟨output, known, holds⟩ := filled slot filling listed
      rw [represents.leaving_output here known]
      exact holds

end Laid

/-! ## Results -/

def nodesOf (problem : Problem α) (tasks : List (Task α)) (number : Nat) : List Nat :=
  match problem.candidateOf? tasks number with
  | some found => found.matched.nodes
  | none => []

namespace Laid

theorem exists_of_mem_nodesOf
    (laid : problem.Laid full selection chosen tasks numbers wires junctions)
    (sound : problem.Sound lines) {number id : Nat} (listed : id ∈ problem.nodesOf tasks number) :
    ∃ candidate ∈ selection, problem.Stands candidate id ∧ number = taskAt numbers candidate 0 := by
  unfold nodesOf at listed
  split at listed
  · next found same =>
    obtain ⟨task, here, -⟩ := Option.bind_eq_some_iff.mp same
    obtain ⟨found', represents⟩ := laid.represents sound here
    obtain rfl := Option.some.inj (same.symm.trans (represents.candidateOf?_eq here))
    exact ⟨_, represents.chosen, ⟨found, represents.known, List.mem_mergeSort.mpr listed⟩,
      represents.number⟩
  · cases listed

theorem mem_nodesOf (laid : problem.Laid full selection chosen tasks numbers wires junctions)
    (sound : problem.Sound lines) {candidate id : Nat} (among : candidate ∈ selection)
    (stands : problem.Stands candidate id) :
    id ∈ problem.nodesOf tasks (taskAt numbers candidate 0) := by
  obtain ⟨found, known, covered⟩ := stands
  rw [nodesOf, laid.candidateOf?_eq sound among known]
  exact List.mem_mergeSort.mp covered

theorem nodes_perm (laid : problem.Laid full selection chosen tasks numbers wires junctions)
    (sound : problem.Sound lines) {order : List Nat}
    (all : order.Perm (List.range tasks.length)) :
    (order.flatMap (problem.nodesOf tasks)).Perm (List.range problem.plan.size) := by
  have distinct := all.nodup_iff.mpr List.nodup_range
  refine (List.perm_ext_iff_of_nodup (List.nodup_flatMap.mpr ⟨?_, ?_⟩) List.nodup_range).mpr ?_
  · intro number _
    unfold nodesOf
    split
    · next found same =>
      obtain ⟨task, -, known⟩ := Option.bind_eq_some_iff.mp same
      exact (List.mergeSort_perm _ _).nodup_iff.mp
        (laid.cover.prepared.distinct found (List.mem_of_getElem? known))
    · exact List.nodup_nil
  · refine distinct.imp fun apart id first second => ?_
    obtain ⟨candidate, among, stands, rfl⟩ := laid.exists_of_mem_nodesOf sound first
    obtain ⟨candidate', among', stands', rfl⟩ := laid.exists_of_mem_nodesOf sound second
    exact apart (congrArg (taskAt numbers · 0)
      (laid.cover.stands_unique among among' stands stands'))
  · intro id
    rw [List.mem_flatMap, List.mem_range]
    constructor
    · rintro ⟨number, -, listed⟩
      obtain ⟨_, -, ⟨found, known, covered⟩, -⟩ := laid.exists_of_mem_nodesOf sound listed
      exact (Plan.mem_order laid.cover.prepared.order).mp
        (laid.cover.prepared.within found (List.mem_of_getElem? known) id covered)
    · intro within
      obtain ⟨candidate, among, stands⟩ := laid.cover.exists_stands within
      refine ⟨_, ?_, laid.mem_nodesOf sound among stands⟩
      obtain ⟨found, known, -⟩ := stands
      have here := laid.candidateOf?_eq sound among known
      obtain ⟨task, here, -⟩ := Option.bind_eq_some_iff.mp here
      rw [all.mem_iff, List.mem_range]
      exact (List.getElem?_eq_some_iff.mp here).1

theorem under_eq (laid : problem.Laid full selection chosen tasks numbers wires junctions)
    (sound : problem.Sound lines) {number : Nat} (within : number < tasks.length) (name : String) :
    (problem.rowFlow tasks lines).under name number =
      (problem.nodesOf tasks number).flatMap fun id =>
        rowsUnder name (problem.plan.written? lines id) := by
  have here := List.getElem?_eq_getElem within
  obtain ⟨found, represents⟩ := laid.represents sound here
  obtain ⟨action, performs⟩ := sound.performs found (List.mem_of_getElem? represents.known)
  rw [RowFlow.under, represents.written_eq here, performs.rowsUnder_eq, nodesOf,
    represents.candidateOf?_eq here]

end Laid

theorem Plan.result_eq {plan : Plan} (formed : plan.WellFormed) (name : String) :
    plan.result lines name = (List.range plan.size).flatMap fun id =>
      rowsUnder name (plan.written? lines id) := by
  have each : plan.operators.map (fun operator =>
      if operator.resultName? = some name then plan.rows lines operator.id else []) =
        (List.range plan.size).map fun id => rowsUnder name (plan.written? lines id) := by
    refine List.ext_getElem (by simp [Plan.size]) fun id within within' => ?_
    rw [List.length_map] at within
    have here := List.getElem?_eq_getElem within
    rw [List.getElem_map, List.getElem_map, List.getElem_range, Plan.written?, here,
      formed.numbered id _ here, Option.bind_some]
    cases plan.operators[id].resultName? with
    | none => rfl
    | some other => simp only [Option.map_some, rowsUnder, Option.some.injEq]
  rw [Plan.result, List.flatMap_def, each, ← List.flatMap_def]

namespace Laid

/-- The tasks together leave the rows that the plan leaves under a name. -/
theorem results_perm (laid : problem.Laid full selection chosen tasks numbers wires junctions)
    (sound : problem.Sound lines) {order : List Nat}
    (all : order.Perm (List.range tasks.length)) (name : String) :
    (order.flatMap ((problem.rowFlow tasks lines).under name)).Perm
      (problem.plan.result lines name) := by
  have each : order.flatMap ((problem.rowFlow tasks lines).under name) =
      (order.flatMap (problem.nodesOf tasks)).flatMap fun id =>
        rowsUnder name (problem.plan.written? lines id) := by
    rw [List.flatMap_assoc]
    refine List.flatMap_congr fun number listed => ?_
    exact laid.under_eq sound (List.mem_range.mp (all.mem_iff.mp listed)) name
  rw [each, Plan.result_eq laid.cover.formed]
  exact (laid.nodes_perm sound all).flatMap_right _

theorem named_iff (laid : problem.Laid full selection chosen tasks numbers wires junctions)
    (sound : problem.Sound lines) {order : List Nat}
    (all : order.Perm (List.range tasks.length)) (name : String) :
    (∃ number ∈ order, ∃ rows, (problem.rowFlow tasks lines).written number = some (name, rows)) ↔
      ∃ operator ∈ problem.plan.operators, operator.resultName? = some name := by
  constructor
  · rintro ⟨number, listed, rows, written⟩
    have here := List.getElem?_eq_getElem (List.mem_range.mp (all.mem_iff.mp listed))
    obtain ⟨found, represents⟩ := laid.represents sound here
    rw [represents.written_eq here] at written
    obtain ⟨id, -, written⟩ := List.exists_of_findSome?_eq_some written
    obtain ⟨operator, known, written⟩ := Option.bind_eq_some_iff.mp written
    obtain ⟨_, result, same⟩ := Option.map_eq_some_iff.mp written
    cases same
    exact ⟨operator, List.mem_of_getElem? known, result⟩
  · rintro ⟨operator, listed, result⟩
    obtain ⟨id, known⟩ := List.mem_iff_getElem?.mp listed
    have written : problem.plan.written? lines id = some (name, problem.plan.rows lines id) := by
      rw [Plan.written?, known, Option.bind_some, result, Option.map_some]
    have within := (List.getElem?_eq_some_iff.mp known).1
    obtain ⟨number, here, stands⟩ := List.mem_flatMap.mp
      ((laid.nodes_perm sound all).mem_iff.mpr (List.mem_range.mpr within))
    refine ⟨number, here, problem.plan.rows lines id, ?_⟩
    have task := List.getElem?_eq_getElem (List.mem_range.mp (all.mem_iff.mp here))
    obtain ⟨found, represents⟩ := laid.represents sound task
    obtain ⟨action, performs⟩ := sound.performs found (List.mem_of_getElem? represents.known)
    rw [nodesOf, represents.candidateOf?_eq task] at stands
    dsimp only at stands
    rw [represents.written_eq task]
    rcases performs.written with ⟨-, none⟩ | ⟨_, other, -, nodes, -⟩
    · rw [none id stands] at written
      cases written
    · rw [nodes] at stands ⊢
      rw [← List.mem_singleton.mp stands, List.findSome?_singleton, written]

end Laid

namespace Sound

theorem acyclic (sound : problem.Sound lines) (prepared : problem.Prepared)
    (formed : problem.plan.WellFormed) (selection : List Nat) (site : Nat × Nat) :
    ¬ Relation.TransGen (problem.Feeds selection) site site := by
  refine acyclic_of_forward formed prepared sound.unlinked ?_ selection site
  intro candidate present input listed output listed'
  obtain ⟨action, performs⟩ := sound.performs candidate present
  rcases performs.forward input listed output listed' with same | ⟨edge, among, source, target⟩
  · rw [same]
  · rw [← source, ← target]
    exact Nat.le_of_lt (Plan.edge_forward formed prepared.order among)

/-- What is built of a selection runs without error and leaves the results of the plan. -/
theorem runs (sound : problem.Sound lines) (cover : problem.ExactCover full selection)
    {workspace : Workspace} (reads : problem.plan.Reads workspace lines)
    (complete : problem.assignment? selection = some full) {score : Score α}
    (scored : problem.scoreOf full = .ok score) (epoch : Nat) :
    ∃ executable, problem.build ⟨selection, score⟩ epoch = .ok executable ∧
      ∀ settings, ∃ state, executable.runIn settings workspace = (.ok (), state) ∧ ∀ name,
        ((state.workspace.results.get? name).getD []).Perm (problem.plan.result lines name) ∧
        ((state.workspace.results.get? name).isSome = true ↔
          ∃ operator ∈ problem.plan.operators, operator.resultName? = some name) := by
  obtain ⟨-, chosen, tasks, numbers, wires, junctions, laid, same⟩ :=
    (build_laid cover complete scored epoch).resolve_right
      fun missing => missing.1 (sound.linksCarried selection)
  obtain ⟨-, order, ordered, made⟩ := (laid.create_cases score epoch).resolve_right
    fun cyclic => cyclic.1 (sound.acyclic cover.prepared cover.formed selection)
  refine ⟨_, same.trans made, fun settings => ?_⟩
  obtain ⟨state, run, underway⟩ := runIn_ok (laid.runnable ordered score epoch) workspace
    (laid.computed sound reads settings order score epoch)
  have all := TaskGraph.order_perm laid.closed ordered
  exact ⟨state, run, fun name => ⟨(underway.results name).trans (laid.results_perm sound all name),
    (underway.named name).trans (laid.named_iff sound all name)⟩⟩

end Sound

theorem sound_of_create {plan : Plan} {estimator sizing : Estimator α} {weights : CostWeights α}
    {known statistics : PlanStatistics} {epoch : Nat} {candidates : List (Candidate α)}
    {config : OptimizerConfig α} (built : plan.Built) (bindable : plan.Bindable)
    (matched : RuleRegistry.builtin.candidates estimator weights plan known epoch = .ok candidates)
    (created : create plan candidates sizing statistics config = .ok problem)
    (lines : String → List Record) : problem.Sound lines := by
  obtain ⟨rfl, rfl, -, ordered, -⟩ := create_ok created
  refine ⟨fun place candidate found => RuleRegistry.id_of_getElem? matched found, ?_⟩
  intro candidate present
  obtain ⟨rule, operators, derived⟩ := RuleRegistry.derived_of_mem matched present
  exact (derived.builtin built.wellFormed).performs built.wellFormed ordered bindable lines

/-- Every selection that is accepted can be built and run, and leaves the same results as the plan
evaluated operator by operator, whatever the platforms and the number of parts. -/
theorem results_of_selection {plan : Plan} (built : plan.Built) (valid : plan.validate = .ok ())
    (bindable : plan.Bindable) {workspace : Workspace} (reads : plan.Reads workspace lines)
    (estimator sizing : Estimator α) (weights : CostWeights α) (known statistics : PlanStatistics)
    (config : OptimizerConfig α) (epoch round : Nat) :
    ∃ candidates problem,
      RuleRegistry.builtin.candidates estimator weights plan known epoch = .ok candidates ∧
      create plan candidates sizing statistics config = .ok problem ∧
      ∀ selection score, problem.score? selection = some score →
        ∃ executable, problem.build ⟨selection, score⟩ round = .ok executable ∧
          ∀ settings, ∃ state, executable.runIn settings workspace = (.ok (), state) ∧ ∀ name,
            ((state.workspace.results.get? name).getD []).Perm (plan.result lines name) ∧
            ((state.workspace.results.get? name).isSome = true ↔
              ∃ operator ∈ plan.operators, operator.resultName? = some name) := by
  obtain ⟨⟨order, ordered⟩, -⟩ := Plan.validate_ok built.wellFormed valid
  obtain ⟨candidates, matched⟩ :=
    builtin_candidates_ok built.wellFormed bindable estimator weights known epoch
  obtain ⟨problem, created⟩ : ∃ problem,
      create plan candidates sizing statistics config = .ok problem :=
    ⟨_, bind_ok_iff.mpr ⟨order, mapError_ok_iff.mpr ordered, rfl⟩⟩
  refine ⟨candidates, problem, matched, created, fun selection score scored => ?_⟩
  obtain ⟨full, covers, scored⟩ := score?_eq_some.mp scored
  have complete : ∀ rule ∈ (RuleRegistry.builtin : RuleRegistry α).rules,
      ∀ operators epoch replacement,
        rule.factory operators epoch = .ok replacement → replacement.SlotComplete := by
    intro rule listed operators epoch replacement made
    obtain ⟨operator, rfl⟩ := single_of_builtin listed made
    exact Replacement.slotComplete_single operator
  have cover := exactCover_of_create accepted_builtin complete built valid matched created covers
  have sound := sound_of_create built bindable matched created lines
  obtain ⟨rfl, -⟩ := create_ok created
  exact sound.runs cover reads covers scored round

def people : List Record :=
  [⟨[("name", .text "Ann"), ("city", .text "Rome"), ("age", .int 30)]⟩,
    ⟨[("name", .text "Bob"), ("city", .text "Oslo"), ("age", .int 40)]⟩,
    ⟨[("name", .text "Cem"), ("city", .text "Rome"), ("age", .int 9)]⟩]

def travel : Plan :=
  { operators :=
      [.create 0 "people" (.collectionSource people),
        .create 1 "places" (.collectionSource [⟨[("city", .text "Rome")]⟩]),
        (Operator.create 2 "there" (.filter "city in @places")).widened "places",
        .create 3 "grown" (.filter "age > 17"), .create 4 "named" (.project ["name"]),
        .create 5 "out" (.sink "memory://names")]
    edges := [⟨⟨0, 0⟩, ⟨2, 0⟩⟩, ⟨⟨1, 0⟩, ⟨2, 1⟩⟩, ⟨⟨2, 0⟩, ⟨3, 0⟩⟩, ⟨⟨3, 0⟩, ⟨4, 0⟩⟩,
      ⟨⟨4, 0⟩, ⟨5, 0⟩⟩] }

theorem built_travel : travel.Built := by
  have three := ((Plan.Built.empty.add "people" (.collectionSource people)).add "places"
    (.collectionSource [⟨[("city", .text "Rome")]⟩])).add "there" (.filter "city in @places")
  have wide := three.broadcast (rfl : Plan.addBroadcast _ 2 "places" = .ok (_, 1))
  have operators := ((wide.add "grown" (.filter "age > 17")).add "named"
    (.project ["name"])).add "out" (.sink "memory://names")
  have fed := (operators.connect ⟨0, 0⟩ ⟨2, 0⟩ rfl).connect ⟨1, 0⟩ ⟨2, 1⟩ rfl
  exact ((fed.connect ⟨2, 0⟩ ⟨3, 0⟩ rfl).connect ⟨3, 0⟩ ⟨4, 0⟩ rfl).connect ⟨4, 0⟩ ⟨5, 0⟩ rfl

theorem bindable_travel : travel.Bindable := by
  have bound : ∀ operator ∈ travel.operators, operator.bound.isOk = true := by decide +kernel
  refine ⟨fun operator listed => ?_, by decide, by decide +kernel⟩
  have success := bound operator listed
  cases here : operator.bound with
  | ok action => exact ⟨action, rfl⟩
  | error error => simp [here, Except.isOk, Except.toBool] at success

/-- On whichever platforms the filters and the projection are done, and in one pass or two, the same
name is left; so it is where the solver puts them. -/
theorem results_of_selection_travel : ∃ candidates problem solution,
    RuleRegistry.builtin.candidates uniformCosts .standard travel ⟨[]⟩ 0 = .ok candidates ∧
    create travel candidates uniformCosts ⟨[]⟩ .standard = .ok problem ∧
    problem.solve = .ok solution ∧
    problem.score? solution.selection = some solution.score ∧
    ∀ selection score, problem.score? selection = some score →
      ∃ executable, problem.build ⟨selection, score⟩ 0 = .ok executable ∧
        ∀ settings, ∃ state, executable.runIn settings .empty = (.ok (), state) ∧
          ((state.workspace.results.get? "names").getD []).map (Predicate.shown? · "name") =
            [some "Ann"] := by
  have reads : travel.Reads .empty fun _ => [] := by
    intro operator listed url same
    have none : ∀ operator ∈ travel.operators, operator.kind ≠ .textSource := by decide
    exact absurd (by rw [Operator.kind, same]; rfl) (none operator listed)
  obtain ⟨candidates, problem, matched, created, all⟩ := results_of_selection built_travel rfl
    bindable_travel reads uniformCosts uniformCosts .standard ⟨[]⟩ ⟨[]⟩ .standard 0 0
  obtain ⟨solution, solved⟩ :=
    solve_of_builtin built_travel bindable_travel.readable matched created
  have prepared := prepared_of_create accepted_builtin built_travel matched created
  refine ⟨candidates, problem, solution, matched, created, solved, score?_of_solve prepared solved,
    fun selection score scored => ?_⟩
  obtain ⟨executable, made, runs⟩ := all selection score scored
  refine ⟨executable, made, fun settings => ?_⟩
  obtain ⟨state, run, results⟩ := runs settings
  have names : (travel.result (fun _ => []) "names").map (Predicate.shown? · "name") =
      [some "Ann"] := by
    decide +kernel
  refine ⟨state, run, List.perm_singleton.mp ?_⟩
  rw [← names]
  exact (results "names").1.map _

end Problem

end CrossPlan
