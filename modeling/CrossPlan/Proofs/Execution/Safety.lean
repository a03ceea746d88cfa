import CrossPlan.Proofs.Bound.Evaluation
import CrossPlan.Proofs.Execution.Faults
import CrossPlan.Proofs.Execution.Simulation

/-!
# Which contradictions a run can meet

An accepted plan joins each declared slot once, but its junctions may also lead from outputs and
into inputs that no operator declares.  Where declared outputs lead to declared inputs and to
nothing else, a run ends or an operator fails.  Everywhere else it ends in a contradiction, if no
operator fails before.
-/

set_option autoImplicit false

namespace CrossPlan

open Sequence RunStep

variable {α : Type}

/-- Of filled inputs, an operator fills all outputs that it was given, unless it fails. -/
def BoundOperator.Honest (operator : BoundOperator α) : Prop :=
  ∀ context inputs outputs workspace evaluation after,
    inputs.length = operator.inputs → (∀ channel ∈ inputs, channel.produced = true) →
    outputs.length = operator.outputs →
    operator.evaluate context inputs outputs workspace = .ok (evaluation, after) →
    List.Forall₂ (fun (output made : Channel) => made.form = output.form ∧ made.produced = true)
      outputs evaluation.produced

theorem BoundAction.honest (action : BoundAction) (name : String) (platform : Platform)
    (epoch : Nat) : (action.toOperator name platform epoch : BoundOperator α).Honest := by
  intro context inputs outputs workspace evaluation after _ _ given success
  rcases evaluate_cases success with
    ⟨other, -, output, rest, parts, rfl, made⟩ | ⟨destination, -, rfl, -, -, made⟩
  · have single : (output :: rest).length = 1 := by
      cases action with
      | sink destination => exact absurd rfl (other destination)
      | _ => exact given
    obtain rfl := List.length_eq_zero_iff.mp (Nat.succ.inj single)
    rw [made]
    exact .cons ⟨rfl, Channel.produced_acceptParts parts⟩ .nil
  · obtain rfl := List.length_eq_zero_iff.mp given
    rw [made]
    exact .nil

namespace ExecutionPlan

def HasOutput (plan : ExecutionPlan α) (slot : TaskSlot) : Prop :=
  ∃ task, plan.tasks[slot.task]? = some task ∧ slot.slot < task.operator.outputs

def HasInput (plan : ExecutionPlan α) (slot : TaskSlot) : Prop :=
  ∃ task, plan.tasks[slot.task]? = some task ∧ slot.slot < task.operator.inputs

/-- A declared input that an undeclared output feeds, or an undeclared one that a declared output
feeds. -/
def Mismatched (plan : ExecutionPlan α) (slot : TaskSlot) : Prop :=
  ∃ junction ∈ plan.junctions, slot ∈ junction.targets.map (·.consumer) ∧
    ¬ (plan.HasOutput junction.producer ↔ plan.HasInput slot)

/-- The errors that a run can end in: an operator fails, or a mismatched input is missed, fed twice
or left over. -/
def Tolerates (plan : ExecutionPlan α) : RunError → Prop
  | .execution .. => True
  | .internal fault => ∃ slot, plan.Mismatched slot ∧ (fault = .unconsumed slot ∨
      fault = .fedTwice slot ∨ ∃ operator, fault = .missingInput slot operator)
  | .persist .. | .encode => False

structure Verified (plan : ExecutionPlan α) : Prop where
  numbered : plan.tasks.map (·.id) = List.range plan.tasks.length
  carries : ∀ junction ∈ plan.junctions, TaskGraph.Carries plan.tasks junction
  joined : ∀ task ∈ plan.tasks, TaskGraph.Joined plan.junctions task
  order : plan.order.Perm (List.range plan.tasks.length)
  respects : Precedence.Respects (TaskGraph.precedence plan.junctions) plan.order

theorem verified_of_create {tasks : List (Task α)} {junctions : List (Junction α)} {score : Score α}
    {epoch : Nat} {plan : ExecutionPlan α} (numbered : tasks.map (·.id) = List.range tasks.length)
    (accepted : create tasks junctions score epoch = .ok plan) : plan.Verified := by
  obtain ⟨order, verified, accepted⟩ := bind_ok_iff.mp accepted
  cases accepted
  obtain ⟨carries, joined, ordered⟩ := TaskGraph.verify_ok verified
  have closed := TaskGraph.Closed.of_carries numbered carries
  exact ⟨numbered, carries, joined, TaskGraph.order_perm closed ordered,
    TaskGraph.respects_order ordered⟩

namespace Verified

variable {plan : ExecutionPlan α} {slot : TaskSlot}

theorem task_lt (verified : plan.Verified) {junction : Junction α}
    (present : junction ∈ plan.junctions) (feeds : slot ∈ junction.targets.map (·.consumer)) :
    slot.task < plan.tasks.length := by
  obtain ⟨target, among, rfl⟩ := List.mem_map.mp feeds
  obtain ⟨task, _, found, -⟩ := (verified.carries junction present).arrives target among
  exact (List.getElem?_eq_some_iff.mp found).1

theorem fed_once (verified : plan.Verified) (has : plan.HasInput slot) :
    (TaskGraph.fed plan.junctions).count slot = 1 := by
  obtain ⟨task, found, within⟩ := has
  have once := (verified.joined task (List.mem_of_getElem? found)).fed slot.slot within
  rwa [TaskGraph.id_of_numbered verified.numbered found] at once

theorem feeder_unique (verified : plan.Verified) (has : plan.HasInput slot)
    {first second : Junction α} (present : first ∈ plan.junctions)
    (present' : second ∈ plan.junctions) (feeds : slot ∈ first.targets.map (·.consumer))
    (feeds' : slot ∈ second.targets.map (·.consumer)) : first = second :=
  eq_of_count_flatMap (Nat.le_of_eq (verified.fed_once has)) present present' feeds feeds'

theorem exists_feeder (verified : plan.Verified) (has : plan.HasInput slot) :
    ∃ junction ∈ plan.junctions, slot ∈ junction.targets.map (·.consumer) :=
  List.mem_flatMap.mp (List.count_pos_iff.mp (verified.fed_once has ▸ Nat.one_pos))

theorem carried_once (verified : plan.Verified) (has : plan.HasOutput slot) :
    (TaskGraph.carried plan.junctions).count slot = 1 := by
  obtain ⟨task, found, within⟩ := has
  have once := (verified.joined task (List.mem_of_getElem? found)).carried slot.slot within
  rwa [TaskGraph.id_of_numbered verified.numbered found] at once

theorem junctionFrom?_iff (verified : plan.Verified) (has : plan.HasOutput slot)
    {junction : Junction α} : plan.junctionFrom? slot = some junction ↔
      junction ∈ plan.junctions ∧ junction.producer = slot := by
  have once := verified.carried_once has
  rw [TaskGraph.carried, List.map_eq_flatMap] at once
  unfold ExecutionPlan.junctionFrom?
  constructor
  · intro found
    exact ⟨List.mem_of_find?_eq_some found, by simpa using List.find?_some found⟩
  · rintro ⟨present, rfl⟩
    have some : (plan.junctions.find? fun other => other.producer == junction.producer).isSome :=
      List.find?_isSome.mpr ⟨junction, present, beq_self_eq_true _⟩
    obtain ⟨other, found⟩ := Option.isSome_iff_exists.mp some
    have same : other.producer = junction.producer := by simpa using List.find?_some found
    rw [found, eq_of_count_flatMap (Nat.le_of_eq once) (List.mem_of_find?_eq_some found) present
      (by simp [same]) (by simp)]

theorem exists_carrier (verified : plan.Verified) (has : plan.HasOutput slot) :
    ∃ junction, plan.junctionFrom? slot = some junction := by
  have listed := List.count_pos_iff.mp (verified.carried_once has ▸ Nat.one_pos)
  obtain ⟨junction, present, same⟩ := List.mem_map.mp listed
  exact ⟨junction, (verified.junctionFrom?_iff has).mpr ⟨present, same⟩⟩

theorem chained (verified : plan.Verified) {junction : Junction α}
    (present : junction ∈ plan.junctions) : ∀ target ∈ junction.targets, ∃ arrived,
      Conversion.chains target.conversions junction.form arrived = true := by
  intro target among
  obtain ⟨_, arrived, -, followed, -⟩ := (verified.carries junction present).arrives target among
  exact ⟨arrived, TaskGraph.chains_of_follow? followed⟩

end Verified

/-! ## What holds between two tasks -/

def Fed (plan : ExecutionPlan α) (done : List Nat) (slot : TaskSlot) : Prop :=
  ∃ junction ∈ plan.junctions, plan.HasOutput junction.producer ∧ junction.producer.task ∈ done ∧
    slot ∈ junction.targets.map (·.consumer)

/-- What holds when some tasks of a plan have run without a contradiction. -/
structure Standing (plan : ExecutionPlan α) (done : List Nat) (state : RunState α) : Prop where
  filled : Filled state
  waits : ∀ slot, slot ∈ waiting state ↔
    plan.Fed done slot ∧ ¬ (slot.task ∈ done ∧ plan.HasInput slot)
  served : ∀ slot, slot.task ∈ done → plan.HasInput slot → plan.Fed done slot

theorem Fed.mono {plan : ExecutionPlan α} {done more : List Nat} {slot : TaskSlot}
    (fed : plan.Fed done slot) : plan.Fed (done ++ more) slot := by
  obtain ⟨junction, present, has, earlier, feeds⟩ := fed
  exact ⟨junction, present, has, List.mem_append_left _ earlier, feeds⟩

section Task

variable {plan : ExecutionPlan α} {done rest : List Nat} {number : Nat} {task : Task α}
  {state : RunState α} {slot : TaskSlot}

theorem Verified.notMem_done (verified : plan.Verified)
    (split : plan.order = done ++ number :: rest) : number ∉ done := by
  have distinct := verified.order.nodup_iff.mpr List.nodup_range
  rw [split] at distinct
  exact fun listed => (List.nodup_append.mp distinct).2.2 _ listed _ List.mem_cons_self rfl

/-- An input of the next task that does not wait is fed by an undeclared output. -/
theorem Standing.mismatched_of_missing (standing : plan.Standing done state)
    (verified : plan.Verified) (split : plan.order = done ++ number :: rest)
    (has : plan.HasInput slot) (next : slot.task = number) (missing : slot ∉ waiting state) :
    plan.Mismatched slot := by
  obtain ⟨junction, present, feeds⟩ := verified.exists_feeder has
  refine ⟨junction, present, feeds, fun matching => missing ?_⟩
  have earlier := verified.respects done number rest split _
    (TaskGraph.precedes_of_feeds present feeds) next
  refine (standing.waits slot).mpr
    ⟨⟨junction, present, matching.mpr has, earlier, feeds⟩, fun both => ?_⟩
  exact verified.notMem_done split (next ▸ both.1)

def emitted (plan : ExecutionPlan α) (number count : Nat) : List TaskSlot :=
  (List.range count).flatMap fun slot => plan.readers ⟨number, slot⟩

theorem Verified.mem_emitted (verified : plan.Verified) (found : plan.tasks[number]? = some task) :
    slot ∈ plan.emitted number task.operator.outputs ↔
      ∃ junction ∈ plan.junctions, plan.HasOutput junction.producer ∧
        junction.producer.task = number ∧ slot ∈ junction.targets.map (·.consumer) := by
  simp only [emitted, List.mem_flatMap, List.mem_range]
  constructor
  · rintro ⟨place, within, listed⟩
    have has : plan.HasOutput ⟨number, place⟩ := ⟨task, found, within⟩
    obtain ⟨junction, carrier⟩ := verified.exists_carrier has
    obtain ⟨present, producer⟩ := (verified.junctionFrom?_iff has).mp carrier
    rw [readers, carrier] at listed
    exact ⟨junction, present, producer ▸ has, congrArg TaskSlot.task producer, listed⟩
  · rintro ⟨junction, present, has, rfl, feeds⟩
    have carrier := (verified.junctionFrom?_iff has).mpr ⟨present, rfl⟩
    obtain ⟨other, here, within⟩ := has
    obtain rfl := Option.some.inj (found.symm.trans here)
    refine ⟨junction.producer.slot, within, ?_⟩
    rw [readers, carrier]
    exact feeds

theorem Verified.emitted_subperm (verified : plan.Verified)
    (found : plan.tasks[number]? = some task) :
    (plan.emitted number task.operator.outputs).Subperm (TaskGraph.fed plan.junctions) := by
  let carriers := (List.range task.operator.outputs).filterMap fun place =>
    plan.junctionFrom? ⟨number, place⟩
  have has : ∀ place ∈ List.range task.operator.outputs, plan.HasOutput ⟨number, place⟩ :=
    fun place within => ⟨task, found, List.mem_range.mp within⟩
  have distinct : carriers.Nodup := by
    refine List.pairwise_filterMap.mpr (List.nodup_range.imp_of_mem ?_)
    intro place place' within within' apart junction carrier junction' carrier' same
    have one := ((verified.junctionFrom?_iff (has place within)).mp carrier).2
    have two := ((verified.junctionFrom?_iff (has place' within')).mp carrier').2
    rw [same, two] at one
    exact apart (congrArg TaskSlot.slot one).symm
  have among : ∀ junction ∈ carriers, junction ∈ plan.junctions := by
    intro junction listed
    obtain ⟨place, within, carrier⟩ := List.mem_filterMap.mp listed
    exact ((verified.junctionFrom?_iff (has place within)).mp carrier).1
  have same : plan.emitted number task.operator.outputs =
      carriers.flatMap fun junction => junction.targets.map (·.consumer) := by
    simp only [emitted, carriers, List.filterMap_eq_flatMap_toList, List.flatMap_assoc]
    refine List.flatMap_congr fun place _ => ?_
    rw [readers]
    cases plan.junctionFrom? ⟨number, place⟩ with
    | none => rfl
    | some junction => simp
  obtain ⟨part, permuted, sublist⟩ := List.subperm_of_subset distinct among
  rw [same]
  exact ⟨part.flatMap fun junction => junction.targets.map (·.consumer),
    permuted.flatMap_right _, sublist.flatMap _⟩

/-- Declared inputs wait for the next task only until it takes them. -/
theorem mem_taken (found : plan.tasks[number]? = some task) :
    slot ∈ (state.pending.filter fun entry => !decide (entry.1.task = number ∧
        entry.1.slot < task.operator.inputs)).map (·.1) ↔
      slot ∈ waiting state ∧ ¬ (slot.task = number ∧ plan.HasInput slot) := by
  have declared : slot.task = number →
      (plan.HasInput slot ↔ slot.slot < task.operator.inputs) := by
    rintro rfl
    refine ⟨fun ⟨other, here, within⟩ => ?_, fun within => ⟨task, found, within⟩⟩
    rwa [Option.some.inj (found.symm.trans here)]
  simp only [waiting, List.mem_map, List.mem_filter, Bool.not_eq_true', decide_eq_false_iff_not]
  constructor
  · rintro ⟨entry, ⟨listed, left⟩, rfl⟩
    exact ⟨⟨entry, listed, rfl⟩, fun both => left ⟨both.1, (declared both.1).mp both.2⟩⟩
  · rintro ⟨⟨entry, listed, rfl⟩, left⟩
    exact ⟨entry, ⟨listed, fun both => left ⟨both.1, (declared both.1).mpr both.2⟩⟩, rfl⟩

/-- Only mismatched slots are fed twice. -/
theorem Standing.admits (standing : plan.Standing done state) (verified : plan.Verified)
    (split : plan.order = done ++ number :: rest) (found : plan.tasks[number]? = some task)
    {left : List TaskSlot} (among : ∀ slot ∈ left, slot ∈ waiting state) :
    Admits plan.Tolerates left (plan.emitted number task.operator.outputs) := by
  intro before slot behind whole again
  have emits : slot ∈ plan.emitted number task.operator.outputs := by
    rw [whole]
    exact List.mem_append_right _ List.mem_cons_self
  obtain ⟨junction, present, has, producer, feeds⟩ := (verified.mem_emitted found).mp emits
  refine ⟨slot, ⟨junction, present, feeds, fun matching => ?_⟩, Or.inr (Or.inl rfl)⟩
  have input := matching.mp has
  rcases List.mem_append.mp again with old | earlier
  · obtain ⟨⟨junction', present', -, ran, feeds'⟩, -⟩ := (standing.waits slot).mp (among slot old)
    obtain rfl := verified.feeder_unique input present present' feeds feeds'
    exact verified.notMem_done split (producer ▸ ran)
  · have once := (verified.emitted_subperm found).count_le slot
    rw [verified.fed_once input, whole, List.count_append, List.count_cons_self] at once
    have more := List.count_pos_iff.mpr earlier
    omega

/-- After a task has taken its inputs and fed its readers, the next one can run. -/
theorem Standing.next (standing : plan.Standing done state) (verified : plan.Verified)
    (split : plan.order = done ++ number :: rest) (found : plan.tasks[number]? = some task)
    (waited : ∀ place, place < task.operator.inputs → ⟨number, place⟩ ∈ waiting state)
    {between after : RunState α}
    (taken : between.pending = state.pending.filter fun entry => !decide (entry.1.task = number ∧
      entry.1.slot < task.operator.inputs))
    (queued : Queued between after (plan.emitted number task.operator.outputs)) :
    plan.Standing (done ++ [number]) after := by
  have fresh := verified.notMem_done split
  refine ⟨queued.filled ?_, fun slot => ?_, fun slot ran has => ?_⟩
  · intro entry listed
    rw [taken] at listed
    exact standing.filled entry (List.mem_filter.mp listed).1
  · rw [queued.waiting, waiting, taken, List.mem_append, mem_taken found,
      verified.mem_emitted found, standing.waits]
    simp only [List.mem_append, List.mem_singleton]
    constructor
    · rintro (⟨⟨fed, left⟩, other⟩ | ⟨junction, present, has, producer, feeds⟩)
      · exact ⟨fed.mono, fun both => both.1.elim (fun ran => left ⟨ran, both.2⟩)
          fun own => other ⟨own, both.2⟩⟩
      · refine ⟨⟨junction, present, has, ?_, feeds⟩, fun both => ?_⟩
        · exact List.mem_append_right _ (List.mem_singleton.mpr producer)
        · -- a reader that has run, or that is the task itself, would come behind the task
          have precedes := TaskGraph.precedes_of_feeds present feeds
          rw [producer] at precedes
          exact both.1.elim (fun ran => fresh (verified.respects.closed split precedes ran))
            fun own => fresh (verified.respects done number rest split _ precedes own)
    · rintro ⟨⟨junction, present, has, ran, feeds⟩, left⟩
      rcases List.mem_append.mp ran with earlier | own
      · exact Or.inl ⟨⟨⟨junction, present, has, earlier, feeds⟩, fun both =>
          left ⟨Or.inl both.1, both.2⟩⟩, fun both => left ⟨Or.inr both.1, both.2⟩⟩
      · exact Or.inr ⟨junction, present, has, List.mem_singleton.mp own, feeds⟩
  · rcases List.mem_append.mp ran with earlier | own
    · exact (standing.served slot earlier has).mono
    · have next := List.mem_singleton.mp own
      obtain ⟨reader, here, within⟩ := has
      rw [next, found, Option.some.injEq] at here
      subst here
      have waits := waited slot.slot within
      rw [← next] at waits
      exact ((standing.waits slot).mp waits).1.mono

variable [Quantity α]

theorem leads_emitOutputs (verified : plan.Verified) (found : plan.tasks[number]? = some task)
    (settings : RunSettings α) (main : Nat) {produced : List Channel}
    (length : produced.length = task.operator.outputs)
    (filled : ∀ place made, produced[place]? = some made → made.produced = true ∧ ∃ junction,
      plan.junctionFrom? ⟨number, place⟩ = some junction ∧ made.form = junction.form)
    {allowed : RunError → Prop}
    (admits : Admits allowed (waiting state) (plan.emitted number task.operator.outputs)) :
    Leads allowed (produced.zipIdx.forM fun (channel, place) =>
        emitOutput settings plan task main channel place) state fun _ after =>
      Queued state after (plan.emitted number task.operator.outputs) := by
  have places : plan.emitted number task.operator.outputs =
      produced.zipIdx.flatMap fun entry => plan.readers ⟨number, entry.2⟩ := by
    rw [emitted, ← length, List.range_eq_range', ← List.zipIdx_map_snd, List.flatMap_map]
  rw [places] at admits ⊢
  refine Leads.forM (fun (before : List (Channel × Nat)) after => Queued state after
    (before.flatMap fun entry => plan.readers ⟨number, entry.2⟩)) (.of_untouched (.refl state)) ?_
  rintro before ⟨made, place⟩ behind current split queued
  have here : produced[place]? = some made := by
    refine List.mk_mem_zipIdx_iff_getElem?.mp ?_
    rw [split]
    exact List.mem_append_right _ List.mem_cons_self
  obtain ⟨own, junction, carrier, form⟩ := filled place made here
  have within : place < task.operator.outputs :=
    length ▸ (List.getElem?_eq_some_iff.mp here).1
  obtain ⟨present, -⟩ := (verified.junctionFrom?_iff ⟨task, found, within⟩).mp carrier
  have readers : plan.readers ⟨number, place⟩ = junction.targets.map (·.consumer) := by
    rw [ExecutionPlan.readers, carrier]
  have free : Admits allowed (waiting current) (junction.targets.map (·.consumer)) := by
    rw [split, List.flatMap_append, List.flatMap_cons, readers, ← List.append_assoc] at admits
    rw [queued.waiting]
    exact admits.part
  rw [List.flatMap_append, List.flatMap_singleton, readers]
  refine (leads_emitOutput settings ?_ form (verified.carries junction present).read
    (verified.chained present) own free).mono fun _ after next => queued.trans next
  rw [TaskGraph.id_of_numbered verified.numbered found]
  exact carrier

theorem leads_runTask (verified : plan.Verified) (honest : task.operator.Honest)
    (split : plan.order = done ++ number :: rest) (found : plan.tasks[number]? = some task)
    (standing : plan.Standing done state) (settings : RunSettings α) :
    Leads plan.Tolerates (runTask settings plan task) state fun _ after =>
      plan.Standing (done ++ [number]) after := by
  have id := TaskGraph.id_of_numbered verified.numbered found
  unfold runTask
  rw [id]
  refine .bind ((leads_takes standing.filled fun place within missing => ?_).mono ?_)
  · exact ⟨_, standing.mismatched_of_missing verified split ⟨task, found, within⟩ rfl missing,
      Or.inr (Or.inr ⟨_, rfl⟩)⟩
  rintro inputs afterTakes ⟨count, produced, waited, taken⟩
  refine .bind (((ends_createOutputs plan number _ _ fun place within =>
    verified.exists_carrier ⟨task, found, within⟩).leads plan.Tolerates).mono ?_)
  rintro outputs afterOutputs ⟨made, same⟩
  have given : outputs.length = task.operator.outputs := by
    rw [← made.length_eq, List.length_range]
  refine .bind ((leads_evaluate settings fun _ => trivial).mono ?_)
  rintro evaluation afterEvaluation ⟨pending, workspace, success⟩
  have filled := honest _ _ _ _ _ _ count produced given success
  refine .bind (((ends_note _ _).leads _).mono fun prepare afterPrepare same₁ => ?_)
  refine .bind (((ends_note _ _).leads _).mono fun main afterMain same₂ => ?_)
  have length : evaluation.produced.length = task.operator.outputs := by
    rw [← filled.length_eq, given]
  simp only [length, ne_eq, not_true_eq_false, if_false]
  have pending' : afterMain.pending = state.pending.filter fun entry =>
      !decide (entry.1.task = number ∧ entry.1.slot < task.operator.inputs) := by
    rw [same₂.pending, same₁.pending, pending, same.pending, taken]
  have among : ∀ slot ∈ waiting afterMain, slot ∈ waiting state := by
    intro slot listed
    rw [waiting, pending', mem_taken found] at listed
    exact listed.1
  refine (leads_emitOutputs verified found settings main length ?_
    (standing.admits verified split found among)).mono
    fun _ after queued => standing.next verified split found waited pending' queued
  intro place channel here
  obtain ⟨output, before, form, own⟩ := getElem?_right filled here
  obtain ⟨place', index, junction, carrier, form'⟩ := getElem?_right made before
  have within := (List.getElem?_eq_some_iff.mp index).1
  rw [List.getElem?_range (by simpa using within), Option.some.injEq] at index
  subst index
  exact ⟨own, junction, carrier, form.trans form'⟩

end Task

/-! ## All tasks -/

variable [Quantity α] {plan : ExecutionPlan α}

omit [Quantity α] in
theorem Verified.ran (verified : plan.Verified) {junction : Junction α}
    (present : junction ∈ plan.junctions) {slot : TaskSlot}
    (feeds : slot ∈ junction.targets.map (·.consumer)) : slot.task ∈ plan.order :=
  verified.order.mem_iff.mpr (List.mem_range.mpr (verified.task_lt present feeds))

omit [Quantity α] in
theorem Standing.mismatched_of_left {state : RunState α}
    (standing : plan.Standing plan.order state) (verified : plan.Verified) {slot : TaskSlot}
    (left : slot ∈ waiting state) : plan.Mismatched slot := by
  obtain ⟨⟨junction, present, has, -, feeds⟩, untaken⟩ := (standing.waits slot).mp left
  exact ⟨junction, present, feeds, fun matching =>
    untaken ⟨verified.ran present feeds, matching.mp has⟩⟩

omit [Quantity α] in
/-- Where nothing is left over, declared outputs lead to declared inputs and to nothing else. -/
theorem Standing.matched {state : RunState α} (standing : plan.Standing plan.order state)
    (verified : plan.Verified) (nothing : waiting state = []) (slot : TaskSlot) :
    ¬ plan.Mismatched slot := by
  rintro ⟨junction, present, feeds, mismatch⟩
  have ran := verified.ran present feeds
  refine mismatch ⟨fun has => ?_, fun has => ?_⟩
  · have earlier : junction.producer.task ∈ plan.order := by
      obtain ⟨producer, found, -⟩ := has
      exact verified.order.mem_iff.mpr
        (List.mem_range.mpr (List.getElem?_eq_some_iff.mp found).1)
    by_contra undeclared
    have left := (standing.waits slot).mpr
      ⟨⟨junction, present, has, earlier, feeds⟩, fun both => undeclared both.2⟩
    rw [nothing] at left
    cases left
  · obtain ⟨junction', present', declared, -, feeds'⟩ := standing.served slot ran has
    rwa [verified.feeder_unique has present present' feeds feeds']

theorem leads_runPlan (verified : plan.Verified)
    (honest : ∀ task ∈ plan.tasks, task.operator.Honest) (settings : RunSettings α)
    (workspace : Workspace) :
    Leads plan.Tolerates (runPlan settings plan) ⟨.empty, [], [], workspace⟩
      fun _ _ => ∀ slot, ¬ plan.Mismatched slot := by
  have start : plan.Standing [] ⟨.empty, [], [], workspace⟩ :=
    ⟨by simp [Filled], by simp [waiting, Fed], by simp⟩
  unfold runPlan
  refine .bind ((Leads.forM (fun done after => plan.Standing done after) start ?_).mono ?_)
  · intro done number rest state split standing
    have listed : number ∈ plan.order := by
      rw [split]
      exact List.mem_append_right _ List.mem_cons_self
    have within := List.mem_range.mp (verified.order.mem_iff.mp listed)
    have found := List.getElem?_eq_getElem within
    refine .bind ?_
    rw [found]
    exact .pure (leads_runTask verified (honest _ (List.getElem_mem within)) split found standing
      settings)
  · intro _ after standing
    refine .bind (.get ?_)
    dsimp only
    split
    · next slot rest sorted =>
      have left : slot ∈ waiting after := by
        rw [waiting, ← List.mem_mergeSort, sorted]
        exact List.mem_cons_self
      exact .throw ⟨slot, standing.mismatched_of_left verified left, Or.inl rfl⟩
    · next sorted =>
      have nothing : waiting after = [] := by
        refine List.eq_nil_iff_forall_not_mem.mpr fun slot left => ?_
        rw [waiting, ← List.mem_mergeSort, sorted] at left
        cases left
      exact .pure (standing.matched verified nothing)

/-- A run of an accepted plan of honest operators meets no contradiction but over a declared input
that an undeclared output leads to, or the other way round; and where there is one of these, it does
not end well. -/
theorem runIn_of_create {tasks : List (Task α)} {junctions : List (Junction α)} {score : Score α}
    {epoch : Nat} (accepted : create tasks junctions score epoch = .ok plan)
    (numbered : tasks.map (·.id) = List.range tasks.length)
    (honest : ∀ task ∈ tasks, task.operator.Honest) (settings : RunSettings α)
    (workspace : Workspace) :
    (∃ state, plan.runIn settings workspace = (.ok (), state) ∧
      ∀ slot, ¬ plan.Mismatched slot) ∨
    ∃ error state, plan.runIn settings workspace = (.error error, state) ∧
      plan.Tolerates error := by
  have verified := verified_of_create numbered accepted
  have same : plan.tasks = tasks := by
    obtain ⟨order, -, made⟩ := bind_ok_iff.mp accepted
    cases made
    rfl
  have leads := leads_runPlan verified (same ▸ honest) settings
    { workspace with results := .empty }
  unfold Leads at leads
  split at leads
  · next after run => exact Or.inl ⟨after, run, leads⟩
  · next error after run => exact Or.inr ⟨error, after, run, leads⟩

/-! ## A plan that feeds an undeclared input -/

def strayTasks : List (Task Rat) :=
  [{ id := 0, operator := (BoundAction.collectionSource []).toOperator "source" .inProcess 0
     origin := [0], candidate := 0, rule := "source", estimate := none },
    { id := 1, operator := (BoundAction.sink (.memory "out")).toOperator "sink" .inProcess 0
      origin := [1], candidate := 1, rule := "sink", estimate := none }]

def strayJunctions : List (Junction Rat) :=
  [⟨⟨0, 0⟩, .stream, [⟨⟨1, 0⟩, [], false, 0⟩, ⟨⟨1, 1⟩, [], false, 0⟩]⟩]

def strayPlan : ExecutionPlan Rat :=
  ⟨strayTasks, strayJunctions, [0, 1], ⟨0, 0, [], []⟩, 0⟩

theorem stray_accepted : create strayTasks strayJunctions ⟨0, 0, [], []⟩ 0 = .ok strayPlan := by
  have numbers : TaskGraph.numbers strayTasks strayJunctions = [0, 1] :=
    List.mergeSort_of_pairwise (by decide)
  have order : TaskGraph.order strayTasks strayJunctions = .ok [0, 1] := by
    rw [TaskGraph.order, numbers]
    rfl
  have checked : strayJunctions.forM (TaskGraph.checkJunction strayTasks) = .ok () := by
    decide +kernel
  have joined : strayTasks.forM (TaskGraph.checkTask strayJunctions) = .ok () := by
    decide +kernel
  rw [create, TaskGraph.verify, checked, joined, order]
  rfl

theorem stray_run : (strayPlan.runIn ⟨1, fun _ _ => 0⟩ .empty).1 =
    .error (.internal (.unconsumed ⟨1, 1⟩)) := by
  decide +kernel

/-- What waits at the second input of the sink is never taken. -/
theorem runIn_of_create_stray :
    (strayPlan.runIn ⟨1, fun _ _ => 0⟩ .empty).1 = .error (.internal (.unconsumed ⟨1, 1⟩)) ∧
      strayPlan.Mismatched ⟨1, 1⟩ := by
  refine ⟨stray_run, ?_⟩
  have honest : ∀ task ∈ strayTasks, task.operator.Honest := by
    intro task listed
    rcases List.mem_pair.mp listed with rfl | rfl
    · exact BoundAction.honest _ _ _ _
    · exact BoundAction.honest _ _ _ _
  have run := stray_run
  rcases runIn_of_create stray_accepted rfl honest ⟨1, fun _ _ => 0⟩ .empty with
    ⟨state, same, -⟩ | ⟨error, state, same, tolerated⟩
  · rw [same] at run
    cases run
  · rw [same] at run
    cases run
    obtain ⟨slot, mismatched, same | same | ⟨_, same⟩⟩ := tolerated
    · cases same
      exact mismatched
    · cases same
    · cases same

end ExecutionPlan

end CrossPlan
