import CrossPlan.Proofs.Bound.Evaluation
import CrossPlan.Proofs.Execution.Growth

/-!
# The ledger of a run

A turn takes what waits at the inputs of its task, records the channels of its task and leaves what
the readers of the task wait for.  Over a run the books balance: what was left at inputs is what was
taken from inputs, and what still waits.
-/

set_option autoImplicit false

namespace CrossPlan

open Sequence RunStep

variable {α : Type}

/-- The built-in operators answer with the channels that they were given. -/
theorem BoundAction.returns (action : BoundAction) (name : String) (platform : Platform)
    (epoch : Nat) : (action.toOperator name platform epoch : BoundOperator α).Returns := by
  intro context inputs outputs workspace evaluation after _ _ _ success
  have unchanged : ∀ outputs : List Channel,
      List.Forall₂ (fun (output made : Channel) => made.id = output.id ∧ made.form = output.form ∧
        made.producer = output.producer) outputs outputs :=
    fun outputs => List.forall₂_same.mpr fun output _ => ⟨rfl, rfl, rfl⟩
  rcases evaluate_cases success with
    ⟨-, -, output, rest, parts, rfl, made⟩ | ⟨-, -, -, -, -, made⟩
  · rw [made]
    exact .cons ⟨rfl, rfl, rfl⟩ (unchanged rest)
  · rw [made]
    exact unchanged outputs

def ExecutionPlan.makings (plan : ExecutionPlan α) (task : Task α) : List Making :=
  (plan.outlets task).map Junction.original ++ (plan.outlets task).flatMap Junction.routed

def Turn.consumed (turn : Turn α) : List (TaskSlot × Channel) :=
  turn.taken.zipIdx.map fun (channel, slot) => (⟨turn.task.id, slot⟩, channel)

namespace RunStep

/-! ## One turn -/

/-- What a task finds when its operator is evaluated: the channels that waited at its inputs, and
empty ones for its outputs. -/
structure Handed (plan : ExecutionPlan α) (task : CrossPlan.Task α) (before : RunState α)
    (taken given : List Channel) (after : RunState α) : Prop where
  opens : plan.Open task
  taken : List.Forall₂ (fun slot channel => (⟨task.id, slot⟩, channel) ∈ before.pending ∧
    channel.produced = true) (List.range task.operator.inputs) taken
  given : given = ((plan.outlets task).zipIdx before.created.length).map
    (fun (junction, id) => junction.opened id)
  workspace : after.workspace = before.workspace
  created : after.created = before.created ++
    Making.numbered before.created.length ((plan.outlets task).map Junction.original)
  pending : after.pending = beyond task.id task.operator.inputs before.pending

structure Turned (settings : RunSettings α) (plan : ExecutionPlan α) (task : CrossPlan.Task α)
    (before : RunState α) (turn : Turn α) (after : RunState α) : Prop where
  own : turn.task = task
  opens : plan.Open task
  taken : List.Forall₂ (fun slot channel => (⟨task.id, slot⟩, channel) ∈ before.pending ∧
    channel.produced = true) (List.range task.operator.inputs) turn.taken
  evaluated : task.operator.evaluate (contextOf settings task) turn.taken turn.given
    before.workspace = .ok (turn.evaluation, after.workspace)
  created : after.created = before.created ++
    Making.numbered before.created.length (plan.makings task)
  pending : after.pending = beyond task.id task.operator.inputs before.pending ++ turn.left
  distinct : (before.pending.map (·.1)).Nodup → (after.pending.map (·.1)).Nodup
  sent : List.Forall₂ (Sent turn.evaluation.produced.zipIdx)
    (TaskGraph.connections (plan.outlets task)) turn.left
  owned : Owned before.created.length after.created.length []
    (turn.left.map fun entry => entry.2.id)

variable {settings : RunSettings α} {plan : ExecutionPlan α} {task : CrossPlan.Task α}
  {state : RunState α}

theorem yields_handing (plan : ExecutionPlan α) (task : CrossPlan.Task α) :
    Yields (handing plan task) state fun handed after =>
      Handed plan task state handed.1 handed.2 after := by
  unfold handing
  refine .bind ((yields_takes _ _ _).mono ?_)
  rintro taken between ⟨held, rfl⟩
  refine .bind ((yields_createOutputs plan task _).mono ?_)
  rintro given after ⟨opens, rfl, grows⟩
  refine .pure ⟨opens, held, rfl, grows.workspace, grows.created, ?_⟩
  rw [grows.pending, List.append_nil]

theorem yields_evaluate {taken given : List Channel} :
    Yields (evaluate settings task taken given) state fun evaluation after =>
      task.operator.evaluate (contextOf settings task) taken given state.workspace =
        .ok (evaluation, after.workspace) ∧
      after = { state with workspace := after.workspace } := by
  unfold evaluate
  refine .bind (.get ?_)
  dsimp only
  split
  · next evaluation workspace success => exact .bind (.set (.pure ⟨success, rfl⟩))
  · exact .throw trivial

theorem Handed.ids {taken given : List Channel} {after : RunState α}
    (handed : Handed plan task state taken given after) :
    given.map (·.id) = List.range' state.created.length (plan.outlets task).length := by
  rw [handed.given, List.map_map]
  exact List.zipIdx_map_snd _ _

theorem Handed.length {taken given : List Channel} {after : RunState α}
    (handed : Handed plan task state taken given after) :
    given.length = task.operator.outputs := by
  rw [handed.given, List.length_map, List.length_zipIdx, handed.opens.length]

theorem Handed.count {taken given : List Channel} {after : RunState α}
    (handed : Handed plan task state taken given after) :
    after.created.length = state.created.length + (plan.outlets task).length := by
  rw [handed.created, List.length_append, Making.length_numbered, List.length_map]

theorem Handed.suits {taken given : List Channel} {after : RunState α}
    (handed : Handed plan task state taken given after) {produced : List Channel}
    (returned : List.Forall₂ (fun (output made : Channel) => made.id = output.id ∧
      made.form = output.form ∧ made.producer = output.producer) given produced) :
    List.Forall₂ (Suits plan task) (plan.outlets task) produced.zipIdx := by
  have opens : List.Forall₂ _ _ _ := handed.opens
  rw [handed.given, List.forall₂_map_left_iff] at returned
  rw [List.forall₂_iff_get] at opens returned ⊢
  obtain ⟨length, found⟩ := opens
  obtain ⟨length', same⟩ := returned
  rw [List.length_range] at length
  rw [List.length_zipIdx] at length'
  refine ⟨by rw [List.length_zipIdx, length'], fun slot within within' => ?_⟩
  rw [List.length_zipIdx] at within'
  have here := found slot (by rw [List.length_range, length]; exact within) within
  have alike := same slot (by rw [List.length_zipIdx]; exact within) within'
  simp only [List.get_eq_getElem, List.getElem_range, List.getElem_zipIdx, Nat.zero_add]
    at here alike ⊢
  exact ⟨here, alike.2.1, alike.2.2⟩

variable [Quantity α]

theorem yields_settle {taken given : List Channel} {before : RunState α}
    (handed : Handed plan task before taken given state) {evaluation : Evaluation α}
    {between : RunState α} (same : between = { state with workspace := between.workspace })
    (returned : List.Forall₂ (fun (output made : Channel) => made.id = output.id ∧
      made.form = output.form ∧ made.producer = output.producer) given evaluation.produced) :
    Yields (settle settings plan task taken evaluation) between fun _ after => ∃ added,
      Grows ((plan.outlets task).flatMap Junction.routed) added between after ∧
        List.Forall₂ (Sent evaluation.produced.zipIdx)
          (TaskGraph.connections (plan.outlets task)) added ∧
        Owned before.created.length after.created.length []
          (added.map fun entry => entry.2.id) := by
  have recorded : between.created = state.created := by rw [same]
  have length : evaluation.produced.length = task.operator.outputs := by
    rw [← returned.length_eq, handed.length]
  have ids : (evaluation.produced.zipIdx.map fun entry => entry.1.id) =
      List.range' before.created.length (plan.outlets task).length := by
    rw [← handed.ids]
    have alike : evaluation.produced.map (·.id) = given.map (·.id) := by
      rw [← List.forall₂_eq_eq_eq, List.forall₂_map_left_iff, List.forall₂_map_right_iff]
      exact returned.flip.imp fun output made same => same.1
    rw [← alike]
    conv_rhs => rw [← List.zipIdx_map_fst 0 evaluation.produced, List.map_map]
    rfl
  have bounds : ∀ number ∈ evaluation.produced.zipIdx.map fun entry => entry.1.id,
      before.created.length ≤ number ∧ number < state.created.length := by
    intro number listed
    rw [ids, List.mem_range'_1] at listed
    rwa [handed.count]
  unfold settle
  refine .bind ((yields_note _ _).mono fun prepare first noted => ?_)
  refine .bind ((yields_note _ _).mono fun main second noted' => ?_)
  simp only [length, ne_eq, not_true_eq_false, if_false]
  have quiet := noted.trans noted'
  have count := quiet.length
  rw [List.append_nil, List.length_nil, Nat.add_zero, recorded] at count
  refine (yields_emitOutputs settings main (handed.suits returned) (ids ▸ List.nodup_range')
    fun entry listed => count ▸ (bounds _ (List.mem_map_of_mem listed)).2).mono ?_
  rintro _ after ⟨added, grows, sent, owned⟩
  have rises := grows.rises
  refine ⟨added, quiet.trans grows, sent, owned.nodup, fun number listed => Or.inr ?_⟩
  rcases owned.known number listed with old | new
  · have := bounds number old
    omega
  · have := handed.count
    omega

theorem yields_turn (returns : task.operator.Returns) :
    Yields (turn settings plan task) state fun turn after =>
      Turned settings plan task state turn after := by
  unfold turn
  refine .bind ((yields_handing plan task).mono ?_)
  rintro ⟨taken, given⟩ first handed
  refine .bind (yields_evaluate.mono ?_)
  rintro evaluation second ⟨success, same⟩
  refine .bind (.get ?_)
  have count : taken.length = task.operator.inputs := by
    rw [← handed.taken.length_eq, List.length_range]
  have filled : ∀ channel ∈ taken, channel.produced = true := by
    intro channel listed
    obtain ⟨slot, -, -, produced⟩ := mem_right handed.taken listed
    exact produced
  have returned := returns _ _ _ _ _ _ count filled handed.length success
  refine .bind ((yields_settle handed same returned).mono ?_)
  rintro _ after ⟨added, grows, sent, owned⟩
  refine .bind (.get (.pure ?_))
  have pending : second.pending = beyond task.id task.operator.inputs state.pending := by
    rw [same]
    exact handed.pending
  have left : after.pending.drop second.pending.length = added := by
    rw [grows.pending, List.drop_left]
  rw [left]
  refine ⟨rfl, handed.opens, handed.taken, ?_, ?_, ?_, ?_, sent, owned⟩
  · rw [grows.workspace, ← handed.workspace]
    exact success
  · have recorded : second.created = first.created := by rw [same]
    have length := handed.count
    rw [grows.created, recorded, handed.created, ExecutionPlan.makings, Making.numbered_append,
      List.length_append, Making.length_numbered, List.append_assoc]
  · rw [grows.pending, pending]
  · intro distinct
    apply grows.distinct
    rw [pending]
    exact distinct.sublist (List.filter_sublist.map _)

theorem yields_turns {numbers : List Nat} (returns : ∀ task ∈ plan.tasks, task.operator.Returns)
    (holds : List Nat → List (Turn α) → RunState α → Prop) (start : holds [] [] state)
    (keeps : ∀ done number ahead task turns turn before after, numbers = done ++ number :: ahead →
      plan.tasks[number]? = some task → holds done turns before →
      Turned settings plan task before turn after →
      holds (done ++ [number]) (turns ++ [turn]) after) :
    Yields (turns settings plan numbers) state fun turns after => holds numbers turns after := by
  unfold turns
  refine Leads.mapM holds start ?_
  intro done turns number ahead before split held
  cases found : plan.tasks[number]? with
  | none => exact .bind (.throw trivial)
  | some task =>
    have listed : task ∈ plan.tasks := List.mem_of_getElem? found
    refine .bind (.pure ((yields_turn (returns task listed)).mono ?_))
    intro turn after turned
    exact keeps done number ahead task turns turn before after split found held turned

end RunStep

/-! ## Balanced books -/

theorem Turn.mem_consumed {turn : Turn α} {entry : TaskSlot × Channel} :
    entry ∈ turn.consumed ↔
      entry.1.task = turn.task.id ∧ turn.taken[entry.1.slot]? = some entry.2 := by
  rw [consumed, List.mem_map]
  constructor
  · rintro ⟨⟨channel, slot⟩, listed, rfl⟩
    exact ⟨rfl, List.mk_mem_zipIdx_iff_getElem?.mp listed⟩
  · rintro ⟨own, here⟩
    refine ⟨(entry.2, entry.1.slot), List.mk_mem_zipIdx_iff_getElem?.mpr here, ?_⟩
    rw [← own]

theorem Turn.slots_consumed (turn : Turn α) :
    turn.consumed.map (·.1) = (List.range turn.taken.length).map (TaskSlot.mk turn.task.id) := by
  rw [consumed, List.map_map, List.range_eq_range', ← List.zipIdx_map_snd, List.map_map]
  rfl

namespace RunStep

variable {settings : RunSettings α} {plan : ExecutionPlan α} {task : CrossPlan.Task α}
  {before after : RunState α} {turn : Turn α}

/-- What waited before a turn was taken in the turn, or still waits. -/
theorem Turned.balanced (turned : Turned settings plan task before turn after)
    (distinct : (before.pending.map (·.1)).Nodup) :
    before.pending.Perm
      (turn.consumed ++ beyond task.id task.operator.inputs before.pending) := by
  have count : turn.taken.length = task.operator.inputs := by
    rw [← turned.taken.length_eq, List.length_range]
  refine (List.filter_append_perm (fun entry => decide
    (entry.1.task = task.id ∧ entry.1.slot < task.operator.inputs)) before.pending).symm.trans
      (List.Perm.append_right _ ?_)
  have once : turn.consumed.Nodup := by
    refine List.Nodup.of_map (·.1) ?_
    rw [turn.slots_consumed]
    exact List.nodup_range.map fun slot slot' same => congrArg TaskSlot.slot same
  refine (List.perm_ext_iff_of_nodup (distinct.of_map.filter _) once).mpr ?_
  intro entry
  rw [List.mem_filter, decide_eq_true_eq, Turn.mem_consumed, turned.own]
  constructor
  · rintro ⟨waits, own, within⟩
    refine ⟨own, ?_⟩
    have within' : entry.1.slot < turn.taken.length := count ▸ within
    have here := List.getElem?_eq_getElem within'
    obtain ⟨slot, index, listed, -⟩ := getElem?_right turned.taken here
    rw [List.getElem?_range within, Option.some.injEq] at index
    subst index
    have slotted : (⟨task.id, entry.1.slot⟩ : TaskSlot) = entry.1 := by rw [← own]
    rw [slotted] at listed
    have same := (lookup_of_mem distinct listed).symm.trans (lookup_of_mem distinct waits)
    rw [here, Option.some.inj same]
  · rintro ⟨own, here⟩
    obtain ⟨slot, index, listed, -⟩ := getElem?_right turned.taken here
    have within := (List.getElem?_eq_some_iff.mp here).1
    rw [count] at within
    rw [List.getElem?_range within, Option.some.injEq] at index
    subst index
    have slotted : (⟨task.id, entry.1.slot⟩ : TaskSlot) = entry.1 := by rw [← own]
    rw [slotted] at listed
    exact ⟨listed, own, within⟩

end RunStep

/-- What is known of a turn without the run around it. -/
structure Turn.Fair (plan : ExecutionPlan α) (turn : Turn α) : Prop where
  opens : plan.Open turn.task
  sent : List.Forall₂ (Sent turn.evaluation.produced.zipIdx)
    (TaskGraph.connections (plan.outlets turn.task)) turn.left

/-- The books after the turns of the tasks of the given numbers. -/
structure Ledger (plan : ExecutionPlan α) (numbers : List Nat) (turns : List (Turn α))
    (state : RunState α) : Prop where
  tasks : List.Forall₂ (fun number turn => plan.tasks[number]? = some turn.task) numbers turns
  fair : ∀ turn ∈ turns, turn.Fair plan
  created : state.created = Making.numbered 0 (turns.flatMap fun turn => plan.makings turn.task)
  distinct : (state.pending.map (·.1)).Nodup
  balanced : (turns.flatMap Turn.left).Perm (turns.flatMap Turn.consumed ++ state.pending)
  owned : Owned 0 state.created.length [] ((turns.flatMap Turn.left).map fun entry => entry.2.id)

namespace Ledger

variable {settings : RunSettings α} {plan : ExecutionPlan α} {task : Task α} {numbers : List Nat}
  {turns : List (Turn α)} {before after : RunState α} {turn : Turn α}

theorem next {number : Nat} (ledger : Ledger plan numbers turns before)
    (found : plan.tasks[number]? = some task)
    (turned : Turned settings plan task before turn after) :
    Ledger plan (numbers ++ [number]) (turns ++ [turn]) after := by
  have same := turned.own
  have count := congrArg List.length ledger.created
  rw [Making.length_numbered] at count
  have rises : before.created.length ≤ after.created.length := by
    rw [turned.created, List.length_append]
    exact Nat.le_add_right _ _
  refine ⟨?_, ?_, ?_, turned.distinct ledger.distinct, ?_, ?_⟩
  · exact List.rel_append ledger.tasks (.cons (same ▸ found) .nil)
  · intro other listed
    rcases List.mem_append.mp listed with old | new
    · exact ledger.fair other old
    · rw [List.mem_singleton.mp new]
      exact ⟨same ▸ turned.opens, same ▸ turned.sent⟩
  · rw [turned.created, List.flatMap_append, List.flatMap_singleton, Making.numbered_append,
      ← ledger.created, Nat.zero_add, ← count, same]
  · rw [List.flatMap_append, List.flatMap_append, List.flatMap_singleton, List.flatMap_singleton,
      turned.pending]
    have waited := turned.balanced ledger.distinct
    have whole := (ledger.balanced.trans (waited.append_left _)).append_right turn.left
    rwa [List.append_assoc, List.append_assoc, ← List.append_assoc] at whole
  · rw [List.flatMap_append, List.flatMap_singleton, List.map_append]
    exact ledger.owned.append turned.owned (Nat.zero_le _) rises (List.disjoint_nil_left _)
      (by simp)

variable [Quantity α] {workspace : Workspace}

/-- The books of a run balance after any turns. -/
theorem of_turns (returns : ∀ task ∈ plan.tasks, task.operator.Returns)
    (told : (RunStep.turns settings plan numbers).run.run (ExecutionPlan.start workspace) =
      (.ok turns, after)) : Ledger plan numbers turns after := by
  have start : Ledger plan [] [] (ExecutionPlan.start workspace) :=
    ⟨.nil, by simp, rfl, List.nodup_nil, List.Perm.refl _, .nil _ _⟩
  refine Leads.of_run (yields_turns returns (fun numbers turns state =>
    Ledger plan numbers turns state) start ?_) told
  intro done number ahead task turns turn before after _ found ledger turned
  exact ledger.next found turned

end Ledger

end CrossPlan
