import CrossPlan.Proofs.Execution.Faults

/-!
# The turns of a run

A run can be told turn by turn: what each task took from its inputs, what it was given to fill, what
its operator ended with, and what then came to wait for other tasks.  Telling a run changes nothing
of it.  A run that ends because an operator failed ends in the turn of that operator, before
anything of the turn is carried on.
-/

set_option autoImplicit false

namespace CrossPlan

variable {α β γ : Type}

structure Turn (α : Type) where
  task : Task α
  /-- the channels that waited at its inputs -/
  taken : List Channel
  /-- the channels that it was given to fill -/
  given : List Channel
  evaluation : Evaluation α
  /-- what came to wait at inputs when the turn was over -/
  left : List (TaskSlot × Channel)

namespace RunStep

def handing (plan : ExecutionPlan α) (task : CrossPlan.Task α) :
    RunStep α (List Channel × List Channel) := do
  let operator := task.operator
  let taken ← (List.range operator.inputs).mapM fun slot => take ⟨task.id, slot⟩ operator.name
  let given ← (List.range operator.outputs).mapM fun slot =>
    createOutput plan ⟨task.id, slot⟩ operator.name
  pure (taken, given)

def settle [Quantity α] (settings : RunSettings α) (plan : ExecutionPlan α)
    (task : CrossPlan.Task α) (taken : List Channel) (evaluation : Evaluation α) :
    RunStep α Unit := do
  let operator := task.operator
  let prepare ← note evaluation.prepare []
  let main ← note evaluation.main (prepare :: taken.filterMap Channel.lineage)
  if evaluation.produced.length ≠ operator.outputs then
    fail (.wrongCount operator.name evaluation.produced.length operator.outputs)
  evaluation.produced.zipIdx.forM fun (channel, slot) =>
    emitOutput settings plan task main channel slot

def turn [Quantity α] (settings : RunSettings α) (plan : ExecutionPlan α)
    (task : CrossPlan.Task α) : RunStep α (Turn α) := do
  let (taken, given) ← handing plan task
  let evaluation ← evaluate settings task taken given
  let before ← get
  settle settings plan task taken evaluation
  let after ← get
  pure ⟨task, taken, given, evaluation, after.pending.drop before.pending.length⟩

def turns [Quantity α] (settings : RunSettings α) (plan : ExecutionPlan α) (numbers : List Nat) :
    RunStep α (List (Turn α)) :=
  numbers.mapM fun number => do
    turn settings plan (← require (.unknownTask number) plan.tasks[number]?)

/-- What is left at inputs when all tasks of a run have had their turns is a contradiction. -/
def leftover : RunStep α Unit := do
  let waiting := (← get).pending.map (·.1)
  let first := waiting.mergeSort fun a b => a.task < b.task || (a.task == b.task && a.slot ≤ b.slot)
  match first with
  | slot :: _ => fail (.unconsumed slot)
  | [] => pure ()

/-! ## Telling a run -/

theorem run_bind (step : RunStep α β) (next : β → RunStep α γ) (state : RunState α) :
    (step >>= next).run.run state =
      match step.run.run state with
      | (.ok value, after) => (next value).run.run after
      | (.error error, after) => (.error error, after) := by
  rw [ExceptT.run_bind, StateT.run_bind]
  cases step.run.run state with
  | mk result after => cases result <;> rfl

theorem ext_run {step other : RunStep α β}
    (same : ∀ state, step.run.run state = other.run.run state) : step = other :=
  funext same

theorem run_get (state : RunState α) :
    (get : RunStep α (RunState α)).run.run state = (.ok state, state) :=
  rfl

/-- Looking at the state around a step does not change the step. -/
theorem watch_eq (step : RunStep α Unit) :
    (do
      let _ ← get
      step
      let _ ← get
      pure ()) = step := by
  refine ext_run fun state => ?_
  simp only [run_bind, run_get]
  cases step.run.run state with
  | mk result after => cases result <;> rfl

theorem forM_eq_mapM {items : List γ} {body : γ → RunStep α β} :
    (items.forM fun item => body item >>= fun _ => pure ()) =
      items.mapM body >>= fun _ => pure () := by
  induction items with
  | nil => rfl
  | cons item rest ih =>
    change (body item >>= fun _ => pure ()) >>= (fun _ => rest.forM _) = _
    rw [ih, List.mapM_cons]
    simp only [bind_assoc, pure_bind]

variable [Quantity α] {settings : RunSettings α} {plan : ExecutionPlan α}

theorem runTask_parts (task : CrossPlan.Task α) : runTask settings plan task = (do
    let (taken, given) ← handing plan task
    let evaluation ← evaluate settings task taken given
    settle settings plan task taken evaluation) := by
  simp only [runTask, handing, settle, bind_assoc, pure_bind]

theorem runTask_eq (task : CrossPlan.Task α) :
    runTask settings plan task = turn settings plan task >>= fun _ => pure () := by
  simp only [runTask_parts, turn, bind_assoc, pure_bind, watch_eq]

theorem runPlan_eq :
    runPlan settings plan = turns settings plan plan.order >>= fun _ => leftover := by
  have each : (plan.order.forM fun number => do
      runTask settings plan (← require (.unknownTask number) plan.tasks[number]?)) =
      turns settings plan plan.order >>= fun _ => pure () := by
    simp only [runTask_eq, ← bind_assoc]
    exact forM_eq_mapM
  rw [runPlan, each, bind_assoc]
  rfl

/-! ## Where a run fails -/

omit [Quantity α] in
theorem mapM_error {items : List γ} {body : γ → RunStep α β} {state after : RunState α}
    {error : RunError} (run : (items.mapM body).run.run state = (.error error, after)) :
    ∃ before item behind results between, items = before ++ item :: behind ∧
      (before.mapM body).run.run state = (.ok results, between) ∧
      (body item).run.run between = (.error error, after) := by
  induction items generalizing state with
  | nil => cases run
  | cons first rest ih =>
    rw [List.mapM_cons, run_bind] at run
    cases now : (body first).run.run state with
    | mk result next =>
      rw [now] at run
      cases result with
      | error reason =>
        cases run
        exact ⟨[], first, rest, [], state, rfl, rfl, now⟩
      | ok value =>
        dsimp only at run
        rw [run_bind] at run
        cases later : (rest.mapM body).run.run next with
        | mk result' last =>
          rw [later] at run
          cases result' with
          | ok values => cases run
          | error reason =>
            cases run
            obtain ⟨before, item, behind, results, between, split, done, here⟩ := ih later
            refine ⟨first :: before, item, behind, value :: results, between, ?_, ?_, here⟩
            · rw [split, List.cons_append]
            · rw [List.mapM_cons, run_bind, now]
              dsimp only
              rw [run_bind, done]
              rfl

omit [Quantity α] in
theorem mapM_stops {before behind : List γ} {item : γ} {body : γ → RunStep α β}
    {state between after : RunState α} {results : List β} {error : RunError}
    (done : (before.mapM body).run.run state = (.ok results, between))
    (here : (body item).run.run between = (.error error, after)) :
    ((before ++ item :: behind).mapM body).run.run state = (.error error, after) := by
  rw [List.mapM_append, run_bind, done]
  dsimp only
  rw [List.mapM_cons, run_bind, run_bind, here]

/-- An error that says that a plan and its run contradict each other. -/
def Contradiction (error : RunError) : Prop := ∃ fault, error = .internal fault

/-- A step in which no operator is evaluated: it fails with contradictions only, and leaves the
workspace alone. -/
def Idle (step : RunStep α β) : Prop :=
  ∀ state, Leads Contradiction step state fun _ after => after.workspace = state.workspace

namespace Idle

omit [Quantity α]

theorem pure (value : β) : Idle (Pure.pure value : RunStep α β) := fun _ => rfl

theorem fail (fault : RunFault) : Idle (RunStep.fail fault : RunStep α β) := fun _ => ⟨fault, rfl⟩

theorem bind {step : RunStep α β} {next : β → RunStep α γ} (idle : Idle step)
    (idle' : ∀ value, Idle (next value)) : Idle (step >>= next) := by
  intro state
  refine .bind ((idle state).mono fun value between same => ?_)
  exact (idle' value between).mono fun _ after same' => same'.trans same

theorem look {next : RunState α → RunStep α β}
    (idle : ∀ state, Leads Contradiction (next state) state
      fun _ after => after.workspace = state.workspace) :
    Idle ((MonadState.get : RunStep α (RunState α)) >>= next) :=
  fun state => .bind (.get (idle state))

theorem require (fault : RunFault) (found : Option β) :
    Idle (RunStep.require fault found : RunStep α β) := by
  cases found with
  | none => exact fail fault
  | some value => exact pure value

theorem mapM {items : List γ} {body : γ → RunStep α β} (idle : ∀ item, Idle (body item)) :
    Idle (items.mapM body) := by
  induction items with
  | nil => exact pure []
  | cons item rest ih =>
    rw [List.mapM_cons]
    exact (idle item).bind fun value => ih.bind fun values => pure _

theorem forM {items : List γ} {body : γ → RunStep α Unit} (idle : ∀ item, Idle (body item)) :
    Idle (items.forM body) := by
  induction items with
  | nil => exact pure ()
  | cons item rest ih => exact (idle item).bind fun _ => ih

theorem foldlM {items : List γ} {body : β → γ → RunStep α β}
    (idle : ∀ value item, Idle (body value item)) (start : β) :
    Idle (items.foldlM body start) := by
  induction items generalizing start with
  | nil => exact pure start
  | cons item rest ih =>
    rw [List.foldlM_cons]
    exact (idle start item).bind ih

theorem record (form : Form) (producer : Nat) (consumer : Option TaskSlot) :
    Idle (RunStep.record form producer consumer : RunStep α Nat) := fun _ => rfl

theorem note (node : LineageNode α) (earlier : List Nat) : Idle (RunStep.note node earlier) :=
  fun _ => rfl

theorem take (slot : TaskSlot) (operator : String) :
    Idle (RunStep.take slot operator : RunStep α Channel) := by
  refine look fun state => .bind ((require _ _ state).mono fun channel after _ => .bind (.set ?_))
  split
  · exact .pure rfl
  · exact .throw ⟨_, rfl⟩

theorem createOutput (plan : ExecutionPlan α) (slot : TaskSlot) (operator : String) :
    Idle (RunStep.createOutput plan slot operator) :=
  (require _ _).bind fun _ => (record _ _ _).bind fun _ => pure _

theorem handing (plan : ExecutionPlan α) (task : CrossPlan.Task α) :
    Idle (RunStep.handing plan task) :=
  (mapM fun _ => take _ _).bind fun _ => (mapM fun _ => createOutput _ _ _).bind fun _ => pure _

theorem convert (settings : RunSettings α) (target : TaskSlot) (channel : Channel)
    (conversion : Conversion) : Idle (RunStep.convert settings target channel conversion) := by
  refine (record _ _ _).bind fun id => ?_
  split
  · exact fail _
  · exact (note _ _).bind fun _ => pure _

theorem deliver (settings : RunSettings α) (target : JunctionTarget α) (channel : Channel) :
    Idle (RunStep.deliver settings target channel) := by
  refine (foldlM (convert settings target.consumer) channel).bind fun arrived => ?_
  refine look fun state => .bind (.set ?_)
  split
  · exact .throw ⟨_, rfl⟩
  · exact .pure rfl

theorem copies (channel : Channel) (targets : List (JunctionTarget α)) :
    Idle (RunStep.copies channel targets) := by
  induction targets with
  | nil => exact pure []
  | cons target rest ih =>
    cases rest with
    | nil => exact pure _
    | cons next rest => exact (record _ _ _).bind fun _ => ih.bind fun _ => pure _

theorem route (settings : RunSettings α) (junction : Junction α) (channel : Channel) :
    Idle (RunStep.route settings junction channel) := by
  unfold RunStep.route
  split
  · exact (fail _).bind fun _ => (copies _ _).bind fun _ => forM fun _ => deliver _ _ _
  · exact (copies _ _).bind fun _ => forM fun _ => deliver _ _ _

theorem leftover : Idle (RunStep.leftover : RunStep α Unit) := by
  refine look fun state => ?_
  dsimp only
  split
  · exact .throw ⟨_, rfl⟩
  · exact .pure rfl

variable [Quantity α]

theorem emitOutput (settings : RunSettings α) (plan : ExecutionPlan α) (task : CrossPlan.Task α)
    (main : Nat) (channel : Channel) (slot : Nat) :
    Idle (RunStep.emitOutput settings plan task main channel slot) := by
  have carried : Idle (do
      let node ← RunStep.note (channelNode task.id task.operator.name channel) [main]
      let junction ← RunStep.require (.noJunction ⟨task.id, slot⟩ task.operator.name)
        (plan.junctionFrom? ⟨task.id, slot⟩)
      RunStep.route settings junction (channel.withLineage node)) :=
    (note _ _).bind fun _ => (require _ _).bind fun _ => route _ _ _
  unfold RunStep.emitOutput
  split
  · exact (fail _).bind fun _ => carried
  · exact carried

theorem settle (settings : RunSettings α) (plan : ExecutionPlan α) (task : CrossPlan.Task α)
    (taken : List Channel) (evaluation : Evaluation α) :
    Idle (RunStep.settle settings plan task taken evaluation) := by
  refine (note _ _).bind fun prepare => (note _ _).bind fun main => ?_
  have carried : Idle (evaluation.produced.zipIdx.forM fun (channel, slot) =>
      RunStep.emitOutput settings plan task main channel slot) :=
    forM fun _ => emitOutput _ _ _ _ _ _
  split
  · exact (fail _).bind fun _ => carried
  · exact carried

end Idle

omit [Quantity α] in
theorem evaluate_error {settings : RunSettings α} {task : CrossPlan.Task α}
    {taken given : List Channel} {state after : RunState α} {error : RunError}
    (run : (evaluate settings task taken given).run.run state = (.error error, after)) :
    after = state ∧ ∃ source,
      task.operator.evaluate (contextOf settings task) taken given state.workspace =
        .error source ∧
      error = .execution task.id task.operator.name task.operator.platform
        (taken.map fun channel => (channel.id, channel.form))
        (given.map fun channel => (channel.id, channel.form)) source := by
  rw [evaluate, run_bind, run_get] at run
  dsimp only at run
  split at run
  · cases run
  · next source failed =>
    cases run
    exact ⟨rfl, source, failed, rfl⟩

omit [Quantity α] in
theorem Idle.contradiction {step : RunStep α β} (idle : Idle step) {state after : RunState α}
    {error : RunError} (run : step.run.run state = (.error error, after)) :
    Contradiction error := by
  have leads := idle state
  rwa [Leads, run] at leads

/-- A turn that ends in anything but a contradiction ends with its operator, once it was handed its
channels. -/
theorem turn_error {task : CrossPlan.Task α} {state after : RunState α} {error : RunError}
    (run : (turn settings plan task).run.run state = (.error error, after))
    (operator : ¬ Contradiction error) :
    ∃ taken given source, (handing plan task).run.run state = (.ok (taken, given), after) ∧
      task.operator.evaluate (contextOf settings task) taken given after.workspace =
        .error source ∧
      error = .execution task.id task.operator.name task.operator.platform
        (taken.map fun channel => (channel.id, channel.form))
        (given.map fun channel => (channel.id, channel.form)) source := by
  rw [turn, run_bind] at run
  split at run
  · next handed between handing =>
    dsimp only at run
    rw [run_bind] at run
    split at run
    · next evaluation afterwards evaluated =>
      -- what comes behind the evaluation can only contradict the plan
      have idle : Idle (do
          let before ← get
          settle settings plan task handed.1 evaluation
          let after ← get
          pure (Turn.mk task handed.1 handed.2 evaluation
            (after.pending.drop before.pending.length))) := by
        refine Idle.look fun before => ?_
        exact ((Idle.settle _ _ _ _ _).bind fun _ => Idle.look fun after => .pure rfl) before
      exact absurd (idle.contradiction run) operator
    · next reason afterwards evaluated =>
      cases run
      obtain ⟨rfl, source, failed, same⟩ := evaluate_error evaluated
      exact ⟨handed.1, handed.2, source, handing, failed, same⟩
  · next reason between handing =>
    cases run
    exact absurd ((Idle.handing plan task).contradiction handing) operator

theorem turn_stops {task : CrossPlan.Task α} {state after : RunState α} {taken given : List Channel}
    {source : EvaluationError}
    (handed : (handing plan task).run.run state = (.ok (taken, given), after))
    (failed : task.operator.evaluate (contextOf settings task) taken given after.workspace =
      .error source) :
    (turn settings plan task).run.run state =
      (.error (.execution task.id task.operator.name task.operator.platform
        (taken.map fun channel => (channel.id, channel.form))
        (given.map fun channel => (channel.id, channel.form)) source), after) := by
  rw [turn, run_bind, handed]
  dsimp only
  rw [run_bind, evaluate, run_bind, run_get]
  dsimp only
  rw [failed]
  rfl

end RunStep

namespace ExecutionPlan

open RunStep

def start (workspace : Workspace) : RunState α :=
  ⟨.empty, [], [], { workspace with results := .empty }⟩

/-- How a run came to an end in which an operator failed: the tasks before it had their turns, and
it was handed its channels. -/
structure Breakdown [Quantity α] (plan : ExecutionPlan α) (settings : RunSettings α)
    (workspace : Workspace) (state : RunState α) where
  done : List Nat
  number : Nat
  ahead : List Nat
  task : Task α
  turns : List (Turn α)
  between : RunState α
  taken : List Channel
  given : List Channel
  source : EvaluationError
  split : plan.order = done ++ number :: ahead
  found : plan.tasks[number]? = some task
  told : (RunStep.turns settings plan done).run.run (start workspace) = (.ok turns, between)
  handed : (handing plan task).run.run between = (.ok (taken, given), state)
  failed : task.operator.evaluate (contextOf settings task) taken given state.workspace =
    .error source

variable [Quantity α] {plan : ExecutionPlan α} {settings : RunSettings α} {workspace : Workspace}
  {state : RunState α}

def Breakdown.error (breakdown : plan.Breakdown settings workspace state) : RunError :=
  .execution breakdown.task.id breakdown.task.operator.name breakdown.task.operator.platform
    (breakdown.taken.map fun channel => (channel.id, channel.form))
    (breakdown.given.map fun channel => (channel.id, channel.form)) breakdown.source

/-- A run that does not end well and does not contradict its plan broke down at an operator. -/
theorem exists_breakdown {error : RunError}
    (run : plan.runIn settings workspace = (.error error, state))
    (operator : ¬ Contradiction error) :
    ∃ breakdown : plan.Breakdown settings workspace state, breakdown.error = error := by
  change (runPlan settings plan).run.run (start workspace) = _ at run
  rw [runPlan_eq, run_bind] at run
  split at run
  · next told last _ => exact absurd (Idle.leftover.contradiction run) operator
  · next reason last stopped =>
    cases run
    obtain ⟨done, number, ahead, turns, between, split, told, here⟩ := mapM_error stopped
    rw [run_bind] at here
    cases found : plan.tasks[number]? with
    | none =>
      rw [found] at here
      cases here
      exact absurd ⟨_, rfl⟩ operator
    | some task =>
      rw [found] at here
      obtain ⟨taken, given, source, handed, failed, rfl⟩ := turn_error here operator
      exact ⟨⟨done, number, ahead, task, turns, between, taken, given, source, split, found, told,
        handed, failed⟩, rfl⟩

/-- A run that breaks down ends with the error of the operator. -/
theorem Breakdown.runIn (breakdown : plan.Breakdown settings workspace state) :
    plan.runIn settings workspace = (.error breakdown.error, state) := by
  change (runPlan settings plan).run.run (start workspace) = _
  have here : (do
      RunStep.turn settings plan (← require (.unknownTask breakdown.number)
        plan.tasks[breakdown.number]?)).run.run breakdown.between =
          (.error breakdown.error, state) := by
    rw [breakdown.found]
    exact turn_stops breakdown.handed breakdown.failed
  have stopped : (RunStep.turns settings plan plan.order).run.run (start workspace) =
      (.error breakdown.error, state) := by
    rw [breakdown.split]
    exact mapM_stops breakdown.told here
  rw [runPlan_eq, run_bind, stopped]

end ExecutionPlan

end CrossPlan
