import CrossPlan.Proofs.Execution.Steps

/-!
# What holds while a plan runs

Suppose it is known which rows leave each output and which ones arrive at each input.  Then, while
tasks run in their order, what waits is exactly what tasks that have run left for tasks that have
not, and the results hold what the sinks among the tasks that have run were given.
-/

set_option autoImplicit false

namespace CrossPlan

open Sequence RunStep

variable {α : Type}

structure ExecutionPlan.Runnable (plan : ExecutionPlan α) : Prop where
  numbered : plan.tasks.map (·.id) = List.range plan.tasks.length
  order : plan.order.Perm (List.range plan.tasks.length)
  respects : Precedence.Respects (TaskGraph.precedence plan.junctions) plan.order
  joined : ∀ task ∈ plan.tasks, TaskGraph.Joined plan.junctions task
  fedOnce : (TaskGraph.fed plan.junctions).Nodup
  carriedOnce : (TaskGraph.carried plan.junctions).Nodup
  read : ∀ junction ∈ plan.junctions, junction.targets ≠ []
  chained : ∀ junction ∈ plan.junctions, ∀ target ∈ junction.targets, ∃ arrived,
    Conversion.chains target.conversions junction.form arrived = true
  produced : ∀ junction ∈ plan.junctions, ∃ task,
    plan.tasks[junction.producer.task]? = some task ∧
      junction.producer.slot < task.operator.outputs
  consumed : ∀ junction ∈ plan.junctions, ∀ target ∈ junction.targets, ∃ task,
    plan.tasks[target.consumer.task]? = some task ∧ target.consumer.slot < task.operator.inputs

namespace ExecutionPlan.Runnable

variable {plan : ExecutionPlan α}

theorem id_eq (runnable : plan.Runnable) {number : Nat} {task : Task α}
    (found : plan.tasks[number]? = some task) : task.id = number :=
  TaskGraph.id_of_numbered runnable.numbered found

theorem junction_unique (runnable : plan.Runnable) {first second : Junction α}
    (present : first ∈ plan.junctions) (present' : second ∈ plan.junctions) {slot : TaskSlot}
    (feeds : slot ∈ first.targets.map (·.consumer))
    (feeds' : slot ∈ second.targets.map (·.consumer)) : first = second := by
  let apart (a b : Junction α) : Prop :=
    slot ∈ a.targets.map (·.consumer) → slot ∈ b.targets.map (·.consumer) → a = b
  have : Std.Symm apart := ⟨fun a b holds inB inA => (holds inA inB).symm⟩
  have disjoint : plan.junctions.Pairwise apart :=
    (List.nodup_flatMap.mp runnable.fedOnce).2.imp fun separate inA inB =>
      absurd inB (separate inA)
  exact disjoint.forall_of_forall (fun _ _ _ _ => rfl) present present' feeds feeds'

theorem junctionFrom?_iff (runnable : plan.Runnable) {slot : TaskSlot} {junction : Junction α} :
    plan.junctionFrom? slot = some junction ↔
      junction ∈ plan.junctions ∧ junction.producer = slot := by
  unfold ExecutionPlan.junctionFrom?
  constructor
  · intro found
    exact ⟨List.mem_of_find?_eq_some found, by simpa using List.find?_some found⟩
  · rintro ⟨present, rfl⟩
    have some : (plan.junctions.find? fun other => other.producer == junction.producer).isSome :=
      List.find?_isSome.mpr ⟨junction, present, beq_self_eq_true _⟩
    obtain ⟨other, found⟩ := Option.isSome_iff_exists.mp some
    have same : other.producer = junction.producer := by simpa using List.find?_some found
    rw [found, List.inj_on_of_nodup_map runnable.carriedOnce
      (List.mem_of_find?_eq_some found) present same]

theorem exists_junction_from (runnable : plan.Runnable) {number : Nat} {task : Task α}
    (found : plan.tasks[number]? = some task) {slot : Nat} (within : slot < task.operator.outputs) :
    ∃ junction, plan.junctionFrom? ⟨number, slot⟩ = some junction := by
  have once := (runnable.joined task (List.mem_of_getElem? found)).carried slot within
  rw [runnable.id_eq found] at once
  have listed := List.count_pos_iff.mp (once ▸ Nat.one_pos)
  obtain ⟨junction, present, same⟩ := List.mem_map.mp listed
  exact ⟨junction, runnable.junctionFrom?_iff.mpr ⟨present, same⟩⟩

theorem exists_junction_into (runnable : plan.Runnable) {number : Nat} {task : Task α}
    (found : plan.tasks[number]? = some task) {slot : Nat} (within : slot < task.operator.inputs) :
    ∃ junction ∈ plan.junctions, ⟨number, slot⟩ ∈ junction.targets.map (·.consumer) := by
  have once := (runnable.joined task (List.mem_of_getElem? found)).fed slot within
  rw [runnable.id_eq found] at once
  exact List.mem_flatMap.mp (List.count_pos_iff.mp (once ▸ Nat.one_pos))

end ExecutionPlan.Runnable

/-! ## Rows in a run -/

/-- Which rows leave the outputs of tasks, arrive at their inputs and are written under a name. -/
structure RowFlow where
  leaving : TaskSlot → List Record
  arriving : TaskSlot → List Record
  written : Nat → Option (String × List Record)

inductive Writes : Option (String × List Record) → Workspace → Workspace → Prop where
  | nothing (workspace : Workspace) : Writes none workspace workspace
  | append (workspace : Workspace) (name : String) {rows rows' : List Record}
      (same : rows'.Perm rows) : Writes (some (name, rows)) workspace (workspace.append name rows')

def rowsUnder (name : String) (written : Option (String × List Record)) : List Record :=
  match written with
  | some (other, rows) => if other = name then rows else []
  | none => []

namespace RowFlow

def under (flow : RowFlow) (name : String) (number : Nat) : List Record :=
  rowsUnder name (flow.written number)

/-- The tasks of a plan turn the rows that arrive into those that leave, wherever the files and the
other machines are as at the start. -/
structure Computed (flow : RowFlow) (plan : ExecutionPlan α) (settings : RunSettings α)
    (base : Workspace) : Prop where
  carried : ∀ junction ∈ plan.junctions, ∀ target ∈ junction.targets,
    flow.leaving junction.producer = flow.arriving target.consumer
  computes : ∀ number task, plan.tasks[number]? = some task → ∀ inputs outputs workspace,
    List.Forall₂ (fun slot channel => Holds channel (flow.arriving ⟨number, slot⟩))
      (List.range task.operator.inputs) inputs →
    outputs.length = task.operator.outputs →
    workspace.files = base.files → workspace.remote = base.remote →
    ∃ evaluation after,
      task.operator.evaluate (contextOf settings task) inputs outputs workspace =
        .ok (evaluation, after) ∧
      Writes (flow.written number) workspace after ∧
      List.Forall₂ (fun output made => made.form = output.form) outputs evaluation.produced ∧
      ∀ slot made, evaluation.produced[slot]? = some made →
        Holds made (flow.leaving ⟨number, slot⟩)

end RowFlow

theorem Writes.files {written : Option (String × List Record)} {before after : Workspace}
    (writes : Writes written before after) :
    after.files = before.files ∧ after.remote = before.remote := by
  cases writes <;> exact ⟨rfl, rfl⟩

theorem Writes.result {flow : RowFlow} {number : Nat} {before after : Workspace}
    (writes : Writes (flow.written number) before after) (name : String) :
    ((after.results.get? name).getD []).Perm
        ((before.results.get? name).getD [] ++ flow.under name number) ∧
      ((after.results.get? name).isSome = true ↔ (before.results.get? name).isSome = true ∨
        ∃ rows, flow.written number = some (name, rows)) := by
  unfold RowFlow.under rowsUnder
  generalize flow.written number = written at writes
  cases writes with
  | nothing => simp
  | @append _ other rows rows' same =>
    simp only [Workspace.append, Table.get?_insert]
    by_cases named : name = other
    · subst named
      rw [if_pos rfl, if_pos rfl]
      exact ⟨same.append_left _, by simp⟩
    · rw [if_neg named, if_neg (Ne.symm named), List.append_nil]
      refine ⟨List.Perm.refl _, ?_⟩
      simp [Ne.symm named]

/-! ## What holds between two tasks -/

/-- An input waits when it was fed by a task that has run and belongs to one that has not. -/
def ExecutionPlan.Waits (plan : ExecutionPlan α) (done : List Nat) (slot : TaskSlot) : Prop :=
  slot.task ∉ done ∧ ∃ junction ∈ plan.junctions, junction.producer.task ∈ done ∧
    slot ∈ junction.targets.map (·.consumer)

structure Underway (plan : ExecutionPlan α) (flow : RowFlow) (base : Workspace) (done : List Nat)
    (state : RunState α) : Prop where
  distinct : (state.pending.map (·.1)).Nodup
  waits : ∀ slot, slot ∈ state.pending.map (·.1) ↔ plan.Waits done slot
  holds : ∀ entry ∈ state.pending, Holds entry.2 (flow.arriving entry.1)
  files : state.workspace.files = base.files ∧ state.workspace.remote = base.remote
  results : ∀ name, ((state.workspace.results.get? name).getD []).Perm
    (done.flatMap (flow.under name))
  named : ∀ name, (state.workspace.results.get? name).isSome = true ↔
    ∃ number ∈ done, ∃ rows, flow.written number = some (name, rows)

def ExecutionPlan.readers (plan : ExecutionPlan α) (slot : TaskSlot) : List TaskSlot :=
  match plan.junctionFrom? slot with
  | some junction => junction.targets.map (·.consumer)
  | none => []

variable {plan : ExecutionPlan α} {flow : RowFlow} {base : Workspace} {settings : RunSettings α}

namespace ExecutionPlan.Runnable

theorem mem_readers (runnable : plan.Runnable) {slot input : TaskSlot} :
    input ∈ plan.readers slot ↔ ∃ junction ∈ plan.junctions, junction.producer = slot ∧
      input ∈ junction.targets.map (·.consumer) := by
  unfold ExecutionPlan.readers
  constructor
  · intro listed
    split at listed
    · next junction found =>
      obtain ⟨present, same⟩ := runnable.junctionFrom?_iff.mp found
      exact ⟨junction, present, same, listed⟩
    · cases listed
  · rintro ⟨junction, present, same, listed⟩
    rw [runnable.junctionFrom?_iff.mpr ⟨present, same⟩]
    exact listed

theorem nodup_readers (runnable : plan.Runnable) (number count : Nat) :
    ((List.range count).flatMap fun slot => plan.readers ⟨number, slot⟩).Nodup := by
  refine List.nodup_flatMap.mpr ⟨fun slot _ => ?_, List.nodup_range.imp fun different input => ?_⟩
  · unfold ExecutionPlan.readers
    split
    · next junction found =>
      exact (List.nodup_flatMap.mp runnable.fedOnce).1 junction
        (runnable.junctionFrom?_iff.mp found).1
    · exact List.nodup_nil
  · intro first second
    obtain ⟨junction, present, same, listed⟩ := runnable.mem_readers.mp first
    obtain ⟨junction', present', same', listed'⟩ := runnable.mem_readers.mp second
    obtain rfl := runnable.junction_unique present present' listed listed'
    exact different (congrArg TaskSlot.slot (same.symm.trans same'))

end ExecutionPlan.Runnable

/-! ## One task -/

section Task

variable {done rest : List Nat} {number : Nat} {task : Task α} {state : RunState α}

theorem Underway.present (runnable : plan.Runnable) (split : plan.order = done ++ number :: rest)
    (found : plan.tasks[number]? = some task) (underway : Underway plan flow base done state)
    {slot : Nat} (within : slot < task.operator.inputs) :
    ∃ channel, (⟨number, slot⟩, channel) ∈ state.pending ∧
      Holds channel (flow.arriving ⟨number, slot⟩) := by
  obtain ⟨junction, present, feeds⟩ := runnable.exists_junction_into found within
  have earlier : junction.producer.task ∈ done :=
    runnable.respects done number rest split _ (TaskGraph.precedes_of_feeds present feeds) rfl
  have later : number ∉ done := by
    have distinct := runnable.order.nodup_iff.mpr List.nodup_range
    rw [split] at distinct
    exact fun listed => (List.nodup_append.mp distinct).2.2 _ listed _ List.mem_cons_self rfl
  have waits := (underway.waits ⟨number, slot⟩).mpr ⟨later, junction, present, earlier, feeds⟩
  obtain ⟨⟨_, channel⟩, listed, rfl⟩ := List.mem_map.mp waits
  exact ⟨channel, listed, underway.holds _ listed⟩

/-- What the outputs of a task hold comes to wait at all their readers. -/
theorem ends_emitOutputs [Quantity α] (runnable : plan.Runnable)
    (computed : flow.Computed plan settings base) (found : plan.tasks[number]? = some task)
    (main : Nat) {produced : List Channel} (length : produced.length = task.operator.outputs)
    (forms : ∀ slot made, produced[slot]? = some made → ∃ junction,
      plan.junctionFrom? ⟨number, slot⟩ = some junction ∧ made.form = junction.form)
    (holds : ∀ slot made, produced[slot]? = some made → Holds made (flow.leaving ⟨number, slot⟩))
    (distinct : (state.pending.map (·.1) ++
      (List.range task.operator.outputs).flatMap fun slot => plan.readers ⟨number, slot⟩).Nodup) :
    Ends (produced.zipIdx.forM fun (channel, slot) =>
        RunStep.emitOutput settings plan task main channel slot) state fun _ after =>
      Arrived flow.arriving state after
        ((List.range task.operator.outputs).flatMap fun slot => plan.readers ⟨number, slot⟩) := by
  have places : (List.range task.operator.outputs).flatMap (fun slot =>
      plan.readers ⟨number, slot⟩) =
      produced.zipIdx.flatMap fun entry => plan.readers ⟨number, entry.2⟩ := by
    rw [← length, List.range_eq_range', ← List.zipIdx_map_snd, List.flatMap_map]
  rw [places] at distinct ⊢
  refine Ends.forM (fun (before : List (Channel × Nat)) after => Arrived flow.arriving state after
    (before.flatMap fun entry => plan.readers ⟨number, entry.2⟩))
    (.of_untouched (.refl state)) ?_
  rintro before ⟨made, slot⟩ behind current split arrived
  have here : produced[slot]? = some made := by
    refine List.mk_mem_zipIdx_iff_getElem?.mp ?_
    rw [split]
    exact List.mem_append_right _ List.mem_cons_self
  obtain ⟨junction, carrier, form⟩ := forms slot made here
  obtain ⟨present, producer⟩ := runnable.junctionFrom?_iff.mp carrier
  have own := holds slot made here
  have readers : plan.readers ⟨number, slot⟩ = junction.targets.map (·.consumer) := by
    rw [ExecutionPlan.readers, carrier]
  rw [List.flatMap_append, List.flatMap_singleton, readers]
  have free : (current.pending.map (·.1) ++ junction.targets.map (·.consumer)).Nodup := by
    rw [split, List.flatMap_append, List.flatMap_cons, readers, ← List.append_assoc,
      ← List.append_assoc, ← arrived.slots] at distinct
    exact (List.nodup_append.mp distinct).1
  refine (ends_emitOutput settings task main slot ?_ form (runnable.read junction present)
    (runnable.chained junction present) own.produced (fun target among => ?_) free).mono
    fun _ after next => arrived.trans next
  · rw [runnable.id_eq found]
    exact carrier
  · rw [← computed.carried junction present target among, producer]
    exact own

theorem ExecutionPlan.Runnable.notMem_done (runnable : plan.Runnable)
    (split : plan.order = done ++ number :: rest) : number ∉ done := by
  have distinct := runnable.order.nodup_iff.mpr List.nodup_range
  rw [split] at distinct
  exact fun listed => (List.nodup_append.mp distinct).2.2 _ listed _ List.mem_cons_self rfl

theorem ExecutionPlan.Runnable.mem_emitted (runnable : plan.Runnable)
    (found : plan.tasks[number]? = some task) {input : TaskSlot} :
    (input ∈ (List.range task.operator.outputs).flatMap fun slot => plan.readers ⟨number, slot⟩) ↔
      ∃ junction ∈ plan.junctions, junction.producer.task = number ∧
        input ∈ junction.targets.map (·.consumer) := by
  simp only [List.mem_flatMap, List.mem_range, runnable.mem_readers]
  constructor
  · rintro ⟨slot, -, junction, present, same, feeds⟩
    exact ⟨junction, present, congrArg TaskSlot.task same, feeds⟩
  · rintro ⟨junction, present, rfl, feeds⟩
    obtain ⟨producer, here, within⟩ := runnable.produced junction present
    obtain rfl := Option.some.inj (found.symm.trans here)
    exact ⟨junction.producer.slot, within, junction, present, rfl, feeds⟩

theorem Underway.mem_taken (runnable : plan.Runnable) (found : plan.tasks[number]? = some task)
    (underway : Underway plan flow base done state) {slot : TaskSlot} :
    slot ∈ (state.pending.filter fun entry => !decide (entry.1.task = number ∧
        entry.1.slot ∈ List.range task.operator.inputs)).map (·.1) ↔
      plan.Waits done slot ∧ slot.task ≠ number := by
  rw [← underway.waits]
  simp only [List.mem_map, List.mem_filter, Bool.not_eq_true', decide_eq_false_iff_not,
    List.mem_range]
  constructor
  · rintro ⟨entry, ⟨listed, left⟩, rfl⟩
    refine ⟨⟨entry, listed, rfl⟩, fun same => left ⟨same, ?_⟩⟩
    obtain ⟨-, junction, present, -, feeds⟩ :=
      (underway.waits entry.1).mp (List.mem_map_of_mem listed)
    obtain ⟨target, among, consumer⟩ := List.mem_map.mp feeds
    obtain ⟨reader, here, within⟩ := runnable.consumed junction present target among
    rw [consumer] at here within
    rw [same, found, Option.some.injEq] at here
    rwa [here]
  · rintro ⟨⟨entry, listed, rfl⟩, other⟩
    exact ⟨entry, ⟨listed, fun both => other both.1⟩, rfl⟩

theorem Underway.distinct_emitted (runnable : plan.Runnable)
    (split : plan.order = done ++ number :: rest) (found : plan.tasks[number]? = some task)
    (underway : Underway plan flow base done state) :
    ((state.pending.filter fun entry => !decide (entry.1.task = number ∧
        entry.1.slot ∈ List.range task.operator.inputs)).map (·.1) ++
      (List.range task.operator.outputs).flatMap fun slot =>
        plan.readers ⟨number, slot⟩).Nodup := by
  refine List.nodup_append.mpr ⟨underway.distinct.sublist (List.filter_sublist.map _),
    runnable.nodup_readers number _, ?_⟩
  rintro slot waiting _ emitted rfl
  obtain ⟨⟨-, junction, present, earlier, feeds⟩, -⟩ :=
    (underway.mem_taken runnable found).mp waiting
  obtain ⟨junction', present', producer, feeds'⟩ := (runnable.mem_emitted found).mp emitted
  obtain rfl := runnable.junction_unique present present' feeds feeds'
  exact runnable.notMem_done split (producer ▸ earlier)

/-- Once a task has taken its inputs and its outputs have been carried on, the next one can run. -/
theorem Underway.next (runnable : plan.Runnable) (split : plan.order = done ++ number :: rest)
    (found : plan.tasks[number]? = some task) (underway : Underway plan flow base done state)
    {between after : RunState α}
    (taken : between.pending = state.pending.filter fun entry =>
      !decide (entry.1.task = number ∧ entry.1.slot ∈ List.range task.operator.inputs))
    (writes : Writes (flow.written number) state.workspace between.workspace)
    (arrived : Arrived flow.arriving between after
      ((List.range task.operator.outputs).flatMap fun slot => plan.readers ⟨number, slot⟩)) :
    Underway plan flow base (done ++ [number]) after := by
  have slots := arrived.slots
  rw [taken] at slots
  have fresh := runnable.notMem_done split
  refine ⟨?_, fun slot => ?_, fun entry listed => ?_, ?_, fun name => ?_, fun name => ?_⟩
  · rw [slots]
    exact underway.distinct_emitted runnable split found
  · rw [slots, List.mem_append, underway.mem_taken runnable found, runnable.mem_emitted found]
    simp only [ExecutionPlan.Waits, List.mem_append, List.mem_singleton, not_or]
    constructor
    · rintro (⟨⟨waits, junction, present, earlier, feeds⟩, other⟩ |
        ⟨junction, present, producer, feeds⟩)
      · exact ⟨⟨waits, other⟩, junction, present, Or.inl earlier, feeds⟩
      · -- a reader that had run, or that is the task itself, would have had to wait for the task
        have precedes := TaskGraph.precedes_of_feeds present feeds
        rw [producer] at precedes
        refine ⟨⟨fun ran => fresh (runnable.respects.closed split precedes ran), fun same => ?_⟩,
          junction, present, Or.inr producer, feeds⟩
        exact fresh (runnable.respects done number rest split _ precedes same)
    · rintro ⟨⟨waits, other⟩, junction, present, earlier | producer, feeds⟩
      · exact Or.inl ⟨⟨waits, junction, present, earlier, feeds⟩, other⟩
      · exact Or.inr ⟨junction, present, producer, feeds⟩
  · obtain ⟨added, same, -, held⟩ := arrived.pending
    rw [same, List.mem_append] at listed
    rcases listed with old | new
    · rw [taken] at old
      exact underway.holds entry (List.mem_filter.mp old).1
    · exact held entry new
  · rw [arrived.workspace, writes.files.1, writes.files.2]
    exact underway.files
  · rw [arrived.workspace, List.flatMap_append, List.flatMap_singleton]
    exact (writes.result name).1.trans ((underway.results name).append_right _)
  · rw [arrived.workspace, (writes.result name).2, underway.named]
    simp only [List.mem_append, List.mem_singleton]
    constructor
    · rintro (⟨earlier, listed, rows, wrote⟩ | ⟨rows, wrote⟩)
      · exact ⟨earlier, Or.inl listed, rows, wrote⟩
      · exact ⟨number, Or.inr rfl, rows, wrote⟩
    · rintro ⟨other, listed | rfl, rows, wrote⟩
      · exact Or.inl ⟨other, listed, rows, wrote⟩
      · exact Or.inr ⟨rows, wrote⟩

theorem ends_runTask [Quantity α] (runnable : plan.Runnable)
    (computed : flow.Computed plan settings base) (split : plan.order = done ++ number :: rest)
    (found : plan.tasks[number]? = some task) (underway : Underway plan flow base done state) :
    Ends (RunStep.runTask settings plan task) state fun _ after =>
      Underway plan flow base (done ++ [number]) after := by
  have id := runnable.id_eq found
  unfold RunStep.runTask
  rw [id]
  refine .bind ((ends_takes number _ _ underway.distinct fun slot within =>
    underway.present runnable split found within).mono ?_)
  rintro inputs afterTakes ⟨held, taken, same⟩
  refine .bind ((ends_createOutputs plan number _ _ fun slot within =>
    runnable.exists_junction_from found within).mono ?_)
  rintro outputs afterOutputs ⟨made, same'⟩
  have files : afterOutputs.workspace = state.workspace := same'.workspace.trans same
  have count : outputs.length = task.operator.outputs := by
    rw [← made.length_eq, List.length_range]
  obtain ⟨evaluation, workspace, success, writes, forms, leaving⟩ :=
    computed.computes number task found inputs outputs afterOutputs.workspace held count
      (files ▸ underway.files.1) (files ▸ underway.files.2)
  refine .bind ((ends_evaluate settings task success).mono ?_)
  rintro ending afterEvaluation ⟨rfl, pending, written⟩
  refine .bind ((ends_note _ _).mono fun prepare afterPrepare same₁ => ?_)
  refine .bind ((ends_note _ _).mono fun main afterMain same₂ => ?_)
  have produced : ending.produced.length = task.operator.outputs := by
    rw [← forms.length_eq, count]
  simp only [produced, ne_eq, not_true_eq_false, if_false]
  have pending' : afterMain.pending = state.pending.filter fun entry =>
      !decide (entry.1.task = number ∧ entry.1.slot ∈ List.range task.operator.inputs) := by
    rw [same₂.pending, same₁.pending, pending, same'.pending, taken]
  have workspace' : afterMain.workspace = workspace := by
    rw [same₂.workspace, same₁.workspace, written]
  refine (ends_emitOutputs runnable computed found main produced ?_ leaving ?_).mono
    fun _ after arrived => underway.next runnable split found pending' ?_ arrived
  · intro slot filled here
    obtain ⟨output, before, form⟩ := getElem?_right forms here
    obtain ⟨place, index, junction, carrier, form'⟩ := getElem?_right made before
    have within := (List.getElem?_eq_some_iff.mp index).1
    rw [List.getElem?_range (by simpa using within), Option.some.injEq] at index
    subst index
    exact ⟨junction, carrier, form.trans form'⟩
  · rw [pending']
    exact underway.distinct_emitted runnable split found
  · rw [workspace', ← files]
    exact writes

end Task

/-! ## All tasks -/

/-- A plan runs without error, and leaves behind what its tasks wrote. -/
theorem runIn_ok [Quantity α] (runnable : plan.Runnable) (workspace : Workspace)
    (computed : flow.Computed plan settings workspace) :
    ∃ state, plan.runIn settings workspace = (.ok (), state) ∧
      Underway plan flow workspace plan.order state := by
  have start : Underway plan flow workspace []
      ⟨.empty, [], [], { workspace with results := .empty }⟩ :=
    ⟨List.nodup_nil, by simp [ExecutionPlan.Waits], by simp, ⟨rfl, rfl⟩, by simp, by simp⟩
  have ends : Ends (RunStep.runPlan settings plan)
      ⟨.empty, [], [], { workspace with results := .empty }⟩
      fun _ after => Underway plan flow workspace plan.order after := by
    unfold RunStep.runPlan
    refine .bind ((Ends.forM (fun done after => Underway plan flow workspace done after) start
      ?_).mono ?_)
    · intro done number rest state split underway
      have listed : number ∈ plan.order := by
        rw [split]
        exact List.mem_append_right _ List.mem_cons_self
      have within := List.mem_range.mp (runnable.order.mem_iff.mp listed)
      have found := List.getElem?_eq_getElem within
      exact .bind (.require found (ends_runTask runnable computed split found underway))
    · intro _ after underway
      have empty : after.pending.map (·.1) = [] := by
        refine List.eq_nil_iff_forall_not_mem.mpr fun slot listed => ?_
        obtain ⟨waits, junction, present, -, feeds⟩ := (underway.waits slot).mp listed
        obtain ⟨target, among, rfl⟩ := List.mem_map.mp feeds
        obtain ⟨task, here, -⟩ := runnable.consumed junction present target among
        exact waits (runnable.order.mem_iff.mpr
          (List.mem_range.mpr (List.getElem?_eq_some_iff.mp here).1))
      refine .bind (.get ?_)
      simp only [empty, List.mergeSort_nil]
      exact .pure underway
  obtain ⟨_, state, run, underway⟩ := ends
  exact ⟨state, run, underway⟩

end CrossPlan
