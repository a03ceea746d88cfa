import CrossPlan.Proofs.Execution.Downstream

/-!
# What a failed run leaves behind

The results are cleared when a run begins, and nothing is taken back when an operator fails.  What
the evaluators of the tasks that had their turns did to the workspace stays, so that the sinks
before the failure keep what they were handed.
-/

set_option autoImplicit false

namespace CrossPlan

open Sequence RunStep

variable {α : Type}

namespace Workspace

def held (workspace : Workspace) (result : String) : List Record :=
  (workspace.results.get? result).getD []

def Recordless (workspace : Workspace) : Prop := ∀ result, workspace.held result = []

theorem held_append (workspace : Workspace) (name result : String) (rows : List Record) :
    (workspace.append name rows).held result =
      workspace.held result ++ if name = result then rows else [] := by
  rw [held, append, Table.get?_insert]
  by_cases same : name = result
  · rw [if_pos same.symm, if_pos same, same]
    rfl
  · rw [if_neg (Ne.symm same), if_neg same, List.append_nil]
    rfl

end Workspace

/-- What evaluators do to a workspace one after the other. -/
inductive Evaluations (settings : RunSettings α) (cleared : Workspace) :
    List (Turn α) → Workspace → Prop where
  | none : Evaluations settings cleared [] cleared
  | next {turns : List (Turn α)} {turn : Turn α} {before after : Workspace} :
    Evaluations settings cleared turns before →
    turn.task.operator.evaluate (contextOf settings turn.task) turn.taken turn.given before =
      .ok (turn.evaluation, after) →
    Evaluations settings cleared (turns ++ [turn]) after

/-- The rows that a turn adds to a result, as the operator of its task acts. -/
def Turn.delivered (action : Task α → BoundAction) (result : String) (turn : Turn α) :
    List Record :=
  match action turn.task with
  | .sink (.memory name) => if name = result then turn.taken.flatMap Channel.content else []
  | _ => []

def Acting (tasks : List (Task α)) (action : Task α → BoundAction) : Prop :=
  ∀ task ∈ tasks, ∃ name platform epoch,
    task.operator = (action task).toOperator name platform epoch

namespace BoundAction

theorem content_of_rowsOf {channel : Channel} {rows : List Record}
    (held : rowsOf channel = .ok rows) : rows = channel.content := by
  have found := mapError_ok_iff.mp held
  exact Except.ok.inj (found.symm.trans (Channel.rows_ok (Channel.produced_of_rows found)))

theorem held_of_evaluate {action : Task α → BoundAction} {turn : Turn α} {name : String}
    {platform : Platform} {context : TaskContext α} {before after : Workspace}
    (success : (action turn.task).evaluate name platform context turn.taken turn.given before =
      .ok (turn.evaluation, after)) (result : String) :
    after.held result = before.held result ++ turn.delivered action result := by
  rcases evaluate_cases success with
    ⟨other, rfl, -⟩ | ⟨destination, rows, sink, gathered, delivered, -⟩
  · have nothing : turn.delivered action result = [] := by
      unfold Turn.delivered
      split
      · next name same => exact absurd same (other _)
      · rfl
    rw [nothing, List.append_nil]
  · have content : rows.flatten = turn.taken.flatMap Channel.content := by
      have each := mapM_ok_iff.mp gathered
      have same : turn.taken.map Channel.content = rows := by
        rw [← List.forall₂_eq_eq_eq, List.forall₂_map_left_iff]
        exact each.imp fun channel rows held => (content_of_rowsOf held).symm
      rw [List.flatMap_def, same]
    cases destination with
    | memory name =>
      cases delivered
      rw [Workspace.held_append, Turn.delivered, sink, content]
    | file path =>
      have unchanged : after.results = before.results := by
        unfold deliver at delivered
        dsimp only at delivered
        split at delivered
        · cases delivered
          rfl
        · cases delivered
      rw [Workspace.held, unchanged, Turn.delivered, sink, List.append_nil]
      rfl

end BoundAction

/-- Results grow by what the sinks are handed, turn by turn. -/
theorem Evaluations.held_eq {settings : RunSettings α} {cleared after : Workspace}
    {turns : List (Turn α)} (evaluations : Evaluations settings cleared turns after)
    {action : Task α → BoundAction} {tasks : List (Task α)} (acting : Acting tasks action)
    (among : ∀ turn ∈ turns, turn.task ∈ tasks) (result : String) :
    after.held result = cleared.held result ++ turns.flatMap (Turn.delivered action result) := by
  induction evaluations with
  | none => exact (List.append_nil _).symm
  | @next turns turn before after _ success ih =>
    obtain ⟨name, platform, epoch, same⟩ :=
      acting turn.task (among turn (List.mem_append_right _ List.mem_cons_self))
    rw [same] at success
    rw [BoundAction.held_of_evaluate success result,
      ih fun other listed => among other (List.mem_append_left _ listed), List.flatMap_append,
      List.flatMap_singleton, List.append_assoc]

namespace RunStep

variable [Quantity α] {settings : RunSettings α} {plan : ExecutionPlan α} {state : RunState α}

theorem yields_turn_workspace (task : CrossPlan.Task α) :
    Yields (turn settings plan task) state fun turn after => turn.task = task ∧
      task.operator.evaluate (contextOf settings task) turn.taken turn.given state.workspace =
        .ok (turn.evaluation, after.workspace) := by
  unfold turn
  refine .bind (((Idle.handing plan task).yields state).mono ?_)
  rintro ⟨taken, given⟩ first same
  refine .bind (yields_evaluate.mono ?_)
  rintro evaluation second ⟨success, -⟩
  refine .bind (.get (.bind (((Idle.settle _ _ _ _ _).yields second).mono ?_)))
  intro _ after same'
  refine .bind (.get (.pure ⟨rfl, ?_⟩))
  rw [same', ← same]
  exact success

theorem yields_evaluations (numbers : List Nat) :
    Yields (turns settings plan numbers) state fun turns after =>
      (∀ turn ∈ turns, turn.task ∈ plan.tasks) ∧
        Evaluations settings state.workspace turns after.workspace := by
  unfold turns
  refine Leads.mapM (fun _ turns after => (∀ turn ∈ turns, turn.task ∈ plan.tasks) ∧
    Evaluations settings state.workspace turns after.workspace) ⟨by simp, .none⟩ ?_
  rintro before turns number behind current - ⟨among, evaluations⟩
  cases found : plan.tasks[number]? with
  | none => exact .bind (.throw trivial)
  | some task =>
    refine .bind (.pure ((yields_turn_workspace task).mono ?_))
    rintro turn after ⟨rfl, success⟩
    refine ⟨?_, evaluations.next success⟩
    intro other listed
    rcases List.mem_append.mp listed with old | new
    · exact among other old
    · rw [List.mem_singleton.mp new]
      exact List.mem_of_getElem? found

end RunStep

namespace ExecutionPlan

variable [Quantity α] {plan : ExecutionPlan α} {settings : RunSettings α} {workspace : Workspace}
  {state : RunState α}

theorem Breakdown.evaluations (breakdown : plan.Breakdown settings workspace state) :
    (∀ turn ∈ breakdown.turns, turn.task ∈ plan.tasks) ∧
      Evaluations settings { workspace with results := .empty } breakdown.turns
        state.workspace := by
  have idle := (Idle.handing plan breakdown.task).yields breakdown.between
  have same : state.workspace = breakdown.between.workspace := idle.of_run breakdown.handed
  rw [same]
  exact (yields_evaluations breakdown.done).of_run breakdown.told

/-- A run in which an operator fails leaves the workspace as the evaluators of the tasks before it
have made it.  Where the operators are built-in ones, each result holds the rows that the sinks
before the failure were handed, so that the results are free of records only if those were handed
none. -/
theorem remains_of_runIn {number : Nat} {name : String} {platform : Platform}
    {inputs outputs : List (Nat × Form)} {source : EvaluationError}
    (run : plan.runIn settings workspace =
      (.error (.execution number name platform inputs outputs source), state)) :
    ∃ breakdown : plan.Breakdown settings workspace state,
      breakdown.error = .execution number name platform inputs outputs source ∧
      Evaluations settings { workspace with results := .empty } breakdown.turns state.workspace ∧
      ∀ action, Acting plan.tasks action →
        (∀ result, state.workspace.held result =
          breakdown.turns.flatMap (Turn.delivered action result)) ∧
        (state.workspace.Recordless ↔ ∀ turn ∈ breakdown.turns, ∀ result,
          action turn.task = .sink (.memory result) →
            ∀ channel ∈ turn.taken, channel.content = []) := by
  obtain ⟨breakdown, same⟩ := exists_breakdown run (by rintro ⟨fault, ⟨⟩⟩)
  obtain ⟨among, evaluations⟩ := breakdown.evaluations
  refine ⟨breakdown, same, evaluations, fun action acting => ?_⟩
  have held : ∀ result, state.workspace.held result =
      breakdown.turns.flatMap (Turn.delivered action result) :=
    fun result => evaluations.held_eq acting among result
  refine ⟨held, ?_⟩
  simp only [Workspace.Recordless, held, List.flatMap_eq_nil_iff]
  constructor
  · intro nothing turn had result sink
    have here := nothing result turn had
    rw [Turn.delivered, sink] at here
    simpa only [if_true, List.flatMap_eq_nil_iff] using here
  · intro nothing result turn had
    unfold Turn.delivered
    split
    · next other sink =>
      by_cases same : other = result
      · rw [if_pos same, List.flatMap_eq_nil_iff]
        exact nothing turn had other sink
      · exact if_neg same
    · rfl

/-- The row that the first sink of the broken plan was handed is still there. -/
theorem remains_of_runIn_broken :
    (brokenPlan.runIn ⟨1, fun _ _ => 0⟩ .empty).1 =
      .error (.execution 2 "events" .inProcess [] [(1, .stream)]
        (.dataAccess "missing.txt" .notFound)) ∧
    (brokenPlan.runIn ⟨1, fun _ _ => 0⟩ .empty).2.workspace.results.keys = ["kept"] ∧
    ∃ state, ∃ breakdown : brokenPlan.Breakdown ⟨1, fun _ _ => 0⟩ .empty state,
      ∀ result, state.workspace.held result =
        breakdown.turns.flatMap (Turn.delivered brokenAction result) := by
  refine ⟨broken_run, by decide +kernel, ?_⟩
  cases run : brokenPlan.runIn ⟨1, fun _ _ => 0⟩ .empty with
  | mk result state =>
    have ended := broken_run
    rw [run] at ended
    obtain rfl := ended
    obtain ⟨breakdown, -, -, acting⟩ := remains_of_runIn run
    exact ⟨state, breakdown, (acting brokenAction broken_bound).1⟩

end ExecutionPlan

end CrossPlan
