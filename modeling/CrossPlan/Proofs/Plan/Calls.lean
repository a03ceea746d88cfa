import CrossPlan.Proofs.Plan.Construction

/-!
# Plans in progress

A plan in progress is a state that calls look at and change in place.  What a call changes before it
fails stays changed, so that a call is atomic only if it looks at everything first.  All calls are,
and whatever calls are made on an empty plan, with whatever arguments, lead to a well-formed plan.
-/

set_option autoImplicit false

namespace CrossPlan

abbrev Construction := EStateM PlanError Plan

namespace Construction

def look (id : Nat) : Construction Operator := do
  match (← get).operators[id]? with
  | some operator => pure operator
  | none => throw (.unknownOperator id)

def append (name : String) (action : Action) : Construction Nat := do
  let id := (← get).operators.length
  modify fun plan => { plan with operators := plan.operators ++ [.create id name action] }
  pure id

def widen (id : Nat) (name : String) : Construction Nat := do
  let operator ← look id
  modify fun plan => { plan with operators := plan.operators.set id (operator.widened name) }
  pure ((← look id).inputs.length - 1)

def join (source target : SlotRef) : Construction Unit := do
  if (← look source.operator).outputs.length ≤ source.slot then
    throw (.noSuchSlot source.operator .output source.slot)
  if (← look target.operator).inputs.length ≤ target.slot then
    throw (.noSuchSlot target.operator .input target.slot)
  if ((← get).producerOf? target).isSome then
    throw (.inputAlreadyConnected target.operator target.slot)
  modify fun plan => { plan with edges := plan.edges ++ [⟨source, target⟩] }

end Construction

/-- A call of construction with its arguments. -/
inductive Plan.Call where
  | add (action : Action)
  | addNamed (name : String) (action : Action)
  | addBroadcast (operator : Nat) (name : String)
  | connect (source target : SlotRef)
  | chain (source target : Nat)

namespace Plan

open Construction Sequence

def Call.perform : Call → Construction (Option Nat)
  | .add action => return some (← append action.kind.name action)
  | .addNamed name action => return some (← append name action)
  | .addBroadcast operator name => return some (← widen operator name)
  | .connect source target => do
    join source target
    pure none
  | .chain source target => do
    join ⟨source, 0⟩ ⟨target, 0⟩
    pure none

/-- The plan that a call leads to and the number that it answers with, or why it fails. -/
def Call.apply (plan : Plan) : Call → Except PlanError (Option Nat × Plan)
  | .add action => .ok (some plan.size, plan.add action)
  | .addNamed name action => .ok (some plan.size, plan.addNamed name action)
  | .addBroadcast operator name =>
    (plan.addBroadcast operator name).map fun (changed, place) => (some place, changed)
  | .connect source target => (plan.connect source target).map fun changed => (none, changed)
  | .chain source target => (plan.chain source target).map fun changed => (none, changed)

/-- How a plan is left by what either changes it or fails at once. -/
def settled {β : Type} (plan : Plan) : Except PlanError (β × Plan) → EStateM.Result PlanError Plan β
  | .ok (answer, changed) => .ok answer changed
  | .error error => .error error plan

/-! ## Changing in place -/

section InPlace

variable (plan : Plan)

theorem run_look (id : Nat) : (look id).run plan =
    plan.settled ((plan.get id).map fun operator => (operator, plan)) := by
  simp only [look, EStateM.run_bind, EStateM.run_get, get]
  cases plan.operators[id]? <;> rfl

theorem run_append (name : String) (action : Action) : (append name action).run plan =
    plan.settled (.ok (plan.size, plan.addNamed name action)) := by
  simp only [append, EStateM.run_bind, EStateM.run_get, EStateM.run_modify, EStateM.run_pure]
  rfl

theorem run_widen (id : Nat) (name : String) : (widen id name).run plan =
    plan.settled ((plan.addBroadcast id name).map Prod.swap) := by
  simp only [widen, EStateM.run_bind, EStateM.run_modify, EStateM.run_pure, run_look, get,
    addBroadcast]
  cases found : plan.operators[id]? with
  | none => rfl
  | some operator =>
    have within := (List.getElem?_eq_some_iff.mp found).1
    simp [Except.map, settled, within, Operator.widened, bind, Except.bind, pure, Except.pure]

theorem run_join (source target : SlotRef) : (join source target).run plan =
    plan.settled ((plan.connect source target).map fun changed => ((), changed)) := by
  simp only [join, EStateM.run_bind, run_look, get, connect]
  cases plan.operators[source.operator]? with
  | none => rfl
  | some producer =>
    simp only [Except.map, settled]
    rw [ok_bind]
    by_cases noOutput : producer.outputs.length ≤ source.slot
    · rw [if_pos noOutput, if_pos noOutput]
      rfl
    rw [if_neg noOutput, if_neg noOutput, EStateM.run_bind, run_look, get]
    cases plan.operators[target.operator]? with
    | none => rfl
    | some consumer =>
      simp only [Except.map, settled]
      rw [ok_bind]
      by_cases noInput : consumer.inputs.length ≤ target.slot
      · rw [if_pos noInput, if_pos noInput]
        rfl
      rw [if_neg noInput, if_neg noInput, EStateM.run_bind, EStateM.run_get]
      by_cases fed : (plan.producerOf? target).isSome = true
      · simp only [if_pos fed]
        rfl
      · simp only [if_neg fed]
        rfl

/-- What a call does in place is what it leads to, and a call that fails has changed nothing. -/
theorem run_perform (call : Call) :
    call.perform.run plan = plan.settled (call.apply plan) := by
  cases call with
  | add action =>
    rw [Call.perform, EStateM.run_bind, run_append]
    rfl
  | addNamed name action =>
    rw [Call.perform, EStateM.run_bind, run_append]
    rfl
  | addBroadcast id name =>
    rw [Call.perform, EStateM.run_bind, run_widen, Call.apply]
    cases plan.addBroadcast id name <;> rfl
  | connect source target =>
    rw [Call.perform, EStateM.run_bind, run_join, Call.apply]
    cases plan.connect source target <;> rfl
  | chain source target =>
    rw [Call.perform, EStateM.run_bind, run_join, Call.apply, chain]
    cases plan.connect ⟨source, 0⟩ ⟨target, 0⟩ <;> rfl

end InPlace

/-! ## One call after another -/

/-- The plan as a call leaves it, whether it succeeds or fails. -/
def Call.left (plan : Plan) (call : Call) : Plan :=
  match call.perform.run plan with
  | .ok _ changed => changed
  | .error _ changed => changed

def after (calls : List Call) : Plan := calls.foldl Call.left .empty

theorem Built.apply {plan changed : Plan} {call : Call} {answer : Option Nat} (built : plan.Built)
    (success : call.apply plan = .ok (answer, changed)) : changed.Built := by
  cases call with
  | add action =>
    cases success
    exact built.add action.kind.name action
  | addNamed name action =>
    cases success
    exact built.add name action
  | addBroadcast id name =>
    obtain ⟨⟨changed, place⟩, added, same⟩ := map_ok_iff.mp success
    cases same
    exact built.broadcast added
  | connect source target =>
    obtain ⟨changed, connected, same⟩ := map_ok_iff.mp success
    cases same
    exact built.connect source target connected
  | chain source target =>
    obtain ⟨changed, connected, same⟩ := map_ok_iff.mp success
    cases same
    exact built.connect ⟨source, 0⟩ ⟨target, 0⟩ connected

theorem Built.left {plan : Plan} (built : plan.Built) (call : Call) :
    (call.left plan).Built := by
  rw [Call.left, run_perform]
  cases outcome : call.apply plan with
  | error error => exact built
  | ok result => exact built.apply outcome

theorem built_iff {plan : Plan} : plan.Built ↔ ∃ calls, plan = after calls := by
  constructor
  · intro built
    have further : ∀ {plan : Plan} {calls : List Call} (call : Call), plan = after calls →
        call.left plan = after (calls ++ [call]) := by
      rintro _ calls call rfl
      rw [after, after, List.foldl_append]
      rfl
    induction built with
    | empty => exact ⟨[], rfl⟩
    | add name action _ ih =>
      obtain ⟨calls, same⟩ := ih
      refine ⟨calls ++ [.addNamed name action], ?_⟩
      rw [← further _ same, Call.left, run_perform]
      rfl
    | @broadcast _ _ id _ name _ success ih =>
      obtain ⟨calls, same⟩ := ih
      refine ⟨calls ++ [.addBroadcast id name], ?_⟩
      rw [← further _ same, Call.left, run_perform, Call.apply, success]
      rfl
    | connect source target _ success ih =>
      obtain ⟨calls, same⟩ := ih
      refine ⟨calls ++ [.connect source target], ?_⟩
      rw [← further _ same, Call.left, run_perform, Call.apply, success]
      rfl
  · rintro ⟨calls, rfl⟩
    exact foldl_keeps Built (fun call _ _ built => built.left call) .empty

/-- Whatever calls are made on an empty plan, the plan that they leave is well-formed, and a further
call that fails leaves it as it is. -/
theorem formed_after (calls : List Call) : (after calls).WellFormed ∧
    ∀ (call : Call) (error : PlanError) (changed : Plan),
      call.perform.run (after calls) = .error error changed → changed = after calls := by
  refine ⟨(built_iff.mpr ⟨calls, rfl⟩).wellFormed, fun call error changed failed => ?_⟩
  rw [run_perform] at failed
  cases outcome : call.apply (after calls) with
  | ok result =>
    rw [outcome] at failed
    cases failed
  | error fault =>
    rw [outcome] at failed
    cases failed
    rfl

end Plan

end CrossPlan
