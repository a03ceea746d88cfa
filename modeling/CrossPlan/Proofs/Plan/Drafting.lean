import CrossPlan.Pipeline
import CrossPlan.Proofs.Plan.Validity

/-!
# Drafts of pipelines

The steps of a pipeline become operators one by one.  A draft follows its steps when each operator
is the step of its number and the edges are those that the steps ask for.  Adding a step keeps this:
its operator is put at the end, and its inputs are fed one after the other by operators before it.
-/

set_option autoImplicit false

namespace CrossPlan

open Sequence

/-! ## What the steps ask for -/

def Named (steps : List PipelineStep) (id : Nat) (name : String) : Prop :=
  ∃ step, steps[id]? = some step ∧ step.id = some name

theorem Named.lt {steps : List PipelineStep} {id : Nat} {name : String}
    (named : Named steps id name) : id < steps.length := by
  obtain ⟨_, here, -⟩ := named
  exact (List.getElem?_eq_some_iff.mp here).1

/-- A step feeds an input of a later one.  The main inputs are fed by the steps that are listed, or
by the step before where none is listed and one is taken; the inputs behind them broadcast. -/
inductive Feeds (steps : List PipelineStep) (source target slot : Nat) : Prop where
  | listed (step : PipelineStep) (name : String) (here : steps[target]? = some step)
    (reads : step.inputs[slot]? = some name) (earlier : source < target)
    (named : Named steps source name)
  | follows (step : PipelineStep) (here : steps[target]? = some step) (unlisted : step.inputs = [])
    (one : step.action.kind.inputs = 1) (first : slot = 0) (next : source + 1 = target)
  | broadcast (step : PipelineStep) (row : String × String) (place : Nat)
    (here : steps[target]? = some step) (reads : step.broadcasts.rows[place]? = some row)
    (behind : slot = step.action.kind.inputs + place) (earlier : source < target)
    (named : Named steps source row.2)

def Operator.spread (operator : Operator) (names : List String) : Operator :=
  { operator with inputs := operator.inputs ++ names.map fun name => ⟨name, true⟩ }

namespace PipelineStep

/-- The operator of a step, named for its kind if the step has no name of its own. -/
def plain (place : Nat) (step : PipelineStep) : Operator :=
  .create place (step.id.getD step.action.kind.name) step.action

def operator (place : Nat) (step : PipelineStep) : Operator :=
  (step.plain place).spread step.broadcasts.keys

def Counted (step : PipelineStep) : Prop :=
  step.inputs.length = step.action.kind.inputs ∨
    step.inputs = [] ∧ step.action.kind.inputs = 1

def width (step : PipelineStep) : Nat := step.action.kind.inputs + step.broadcasts.size

end PipelineStep

/-- What can be wrong with the plan of some steps: a step asks for the rows of a sink, or nothing
reads the rows of a step. -/
inductive PlanFault (steps : List PipelineStep) : PlanError → Prop where
  | sink {source target slot : Nat} {step : PipelineStep} (here : steps[source]? = some step)
    (mute : step.action.kind = .sink) (asked : Feeds steps source target slot) :
    PlanFault steps (.noSuchSlot source .output 0)
  | unread {source : Nat} {step : PipelineStep} (here : steps[source]? = some step)
    (speaks : step.action.kind ≠ .sink) (lost : ∀ target slot, ¬ Feeds steps source target slot) :
    PlanFault steps (.danglingOutput source "out0" 0)

theorem Feeds.lt {steps : List PipelineStep} {source target slot : Nat}
    (feeds : Feeds steps source target slot) : source < target := by
  cases feeds with
  | listed _ _ _ _ earlier => exact earlier
  | follows _ _ _ _ _ next => omega
  | broadcast _ _ _ _ _ _ earlier => exact earlier

section

variable {steps : List PipelineStep} {source target slot : Nat} {step : PipelineStep}

theorem Feeds.exists_step (feeds : Feeds steps source target slot) :
    ∃ step, steps[target]? = some step := by
  cases feeds with
  | listed step _ here => exact ⟨step, here⟩
  | follows step here => exact ⟨step, here⟩
  | broadcast step _ _ here => exact ⟨step, here⟩

/-- Where a step lists as many inputs as it should, what feeds it can be told from the slot. -/
theorem Feeds.split (feeds : Feeds steps source target slot) (here : steps[target]? = some step)
    (counted : step.Counted) :
    (slot < step.action.kind.inputs ∧ ((step.inputs = [] ∧ source + 1 = target) ∨
      ∃ name, step.inputs[slot]? = some name ∧ Named steps source name)) ∨
    step.action.kind.inputs ≤ slot ∧
      ∃ row, step.broadcasts.rows[slot - step.action.kind.inputs]? = some row ∧
        Named steps source row.2 := by
  cases feeds with
  | listed other name here' reads _ named =>
    obtain rfl : other = step := Option.some.inj (here'.symm.trans here)
    have within := (List.getElem?_eq_some_iff.mp reads).1
    have count : other.inputs.length = other.action.kind.inputs :=
      counted.resolve_right fun none => by simp [none.1] at within
    exact .inl ⟨count ▸ within, .inr ⟨name, reads, named⟩⟩
  | follows other here' unlisted one first next =>
    obtain rfl : other = step := Option.some.inj (here'.symm.trans here)
    exact .inl ⟨by omega, .inl ⟨unlisted, next⟩⟩
  | broadcast other row place here' reads behind _ named =>
    obtain rfl : other = step := Option.some.inj (here'.symm.trans here)
    subst behind
    exact .inr ⟨Nat.le_add_right _ _, row, by rwa [Nat.add_sub_cancel_left], named⟩

theorem Feeds.slot_lt (feeds : Feeds steps source target slot) (here : steps[target]? = some step)
    (counted : step.Counted) : slot < step.width := by
  rcases feeds.split here counted with ⟨main, -⟩ | ⟨behind, row, reads, -⟩
  · exact Nat.lt_add_right _ main
  · have := (List.getElem?_eq_some_iff.mp reads).1
    rw [PipelineStep.width, Table.size]
    omega

theorem Feeds.unique {other : Nat}
    (distinct : ∀ name first second, first < target → second < target →
      Named steps first name → Named steps second name → first = second)
    (here : steps[target]? = some step) (counted : step.Counted)
    (feeds : Feeds steps source target slot) (feeds' : Feeds steps other target slot) :
    source = other := by
  rcases feeds.split here counted with ⟨main, ⟨unlisted, next⟩ | ⟨name, reads, named⟩⟩ |
    ⟨behind, row, reads, named⟩ <;>
  rcases feeds'.split here counted with ⟨main', ⟨unlisted', next'⟩ | ⟨name', reads', named'⟩⟩ |
    ⟨behind', row', reads', named'⟩
  · omega
  · simp [unlisted] at reads'
  · omega
  · simp [unlisted'] at reads
  · obtain rfl : name = name' := Option.some.inj (reads.symm.trans reads')
    exact distinct name source other feeds.lt feeds'.lt named named'
  · omega
  · omega
  · omega
  · obtain rfl : row = row' := Option.some.inj (reads.symm.trans reads')
    exact distinct row.2 source other feeds.lt feeds'.lt named named'

end

/-! ## Results -/

/-- A computation on a draft gives what is good, or finds an expected fault of the plan, or finds
something else wrong with the steps. -/
def Concludes {β : Type} (good : β → Prop) (expected : PlanError → Prop) :
    Except PipelineError β → Prop
  | .ok value => good value
  | .error (.plan error) => expected error
  | .error _ => True

namespace Concludes

variable {α β γ : Type} {good : β → Prop} {expected : PlanError → Prop}

theorem bind {suits : γ → Prop} {first : Except PipelineError β}
    {next : β → Except PipelineError γ} (now : Concludes good expected first)
    (after : ∀ value, good value → Concludes suits expected (next value)) :
    Concludes suits expected (first >>= next) := by
  match first, now with
  | .ok value, now => exact after value now
  | .error error, now => cases error <;> exact now

theorem imp {suits : β → Prop} {likely : PlanError → Prop} {result : Except PipelineError β}
    (concluded : Concludes good expected result) (better : ∀ value, good value → suits value)
    (worse : ∀ error, expected error → likely error) : Concludes suits likely result := by
  match result, concluded with
  | .ok value, concluded => exact better value concluded
  | .error error, concluded =>
    cases error with
    | plan error => exact worse error concluded
    | _ => trivial

theorem foldlM (keeps : Nat → β → Prop) {step : β → α → Except PipelineError β}
    {items : List α} {start : β}
    (kept : ∀ place item, items[place]? = some item → ∀ state, keeps place state →
      Concludes (keeps (place + 1)) expected (step state item)) (first : keeps 0 start) :
    Concludes (keeps items.length) expected (items.foldlM step start) := by
  induction items generalizing keeps start with
  | nil => exact first
  | cons item rest ih =>
    rw [List.foldlM_cons]
    refine (kept 0 item rfl start first).bind fun state held => ?_
    exact ih (fun place => keeps (place + 1)) (fun place item found => kept (place + 1) item found)
      held

end Concludes

/-! ## A plan with one operator more -/

namespace Plan

def grown (plan : Plan) (operator : Operator) (sources : List Nat) : Plan :=
  ⟨plan.operators ++ [operator], plan.edges ++ sources.zipIdx.map fun (source, slot) =>
    ⟨⟨source, 0⟩, ⟨plan.size, slot⟩⟩⟩

variable {plan : Plan} {operator : Operator} {sources : List Nat}

theorem mem_edges_grown {edge : Edge} : edge ∈ (plan.grown operator sources).edges ↔
    edge ∈ plan.edges ∨ edge.source.slot = 0 ∧ edge.target.operator = plan.size ∧
      sources[edge.target.slot]? = some edge.source.operator := by
  obtain ⟨⟨source, output⟩, target, slot⟩ := edge
  simp only [grown, List.mem_append, List.mem_map, Prod.exists, List.mk_mem_zipIdx_iff_getElem?,
    Edge.mk.injEq, SlotRef.mk.injEq]
  refine or_congr_right ⟨?_, ?_⟩
  · rintro ⟨_, _, found, ⟨rfl, rfl⟩, rfl, rfl⟩
    exact ⟨rfl, rfl, found⟩
  · rintro ⟨rfl, rfl, found⟩
    exact ⟨source, slot, found, ⟨rfl, rfl⟩, rfl, rfl⟩

theorem nodup_grown (single : (plan.edges.map (·.target)).Nodup)
    (before : ∀ edge ∈ plan.edges, edge.target.operator < plan.size) :
    ((plan.grown operator sources).edges.map (·.target)).Nodup := by
  have fresh : (sources.zipIdx.map fun entry => (⟨plan.size, entry.2⟩ : SlotRef)).Nodup := by
    rw [← Function.comp_def (SlotRef.mk plan.size) Prod.snd, ← List.map_map, List.zipIdx_map_snd]
    exact List.Nodup.map (fun _ _ same => (SlotRef.mk.inj same).2) List.nodup_range'
  rw [grown, List.map_append, List.map_map, List.nodup_append]
  refine ⟨single, fresh, ?_⟩
  rintro _ old _ new rfl
  obtain ⟨edge, present, rfl⟩ := List.mem_map.mp old
  obtain ⟨_, _, same⟩ := List.mem_map.mp new
  exact (before edge present).ne (congrArg SlotRef.operator same).symm

theorem grown_concat (source : Nat) : plan.grown operator (sources ++ [source]) =
    { plan.grown operator sources with
      edges := (plan.grown operator sources).edges ++
        [⟨⟨source, 0⟩, ⟨plan.size, sources.length⟩⟩] } := by
  simp [grown, List.zipIdx_append]

theorem addBroadcast_grown (name : String) :
    (plan.grown operator sources).addBroadcast plan.size name =
      .ok (plan.grown (operator.widened name) sources, operator.inputs.length) := by
  simp [addBroadcast, get, grown, size, bind, Except.bind, pure, Except.pure, Operator.widened]

theorem concludes_connect (operator : Operator) (sources : List Nat) {source : Nat}
    {producer : Operator}
    (before : ∀ edge ∈ plan.edges, edge.target.operator < plan.size)
    (found : plan.operators[source]? = some producer)
    (room : sources.length < operator.inputs.length) :
    Concludes (· = plan.grown operator (sources ++ [source]))
      (fun error => error = .noSuchSlot source .output 0 ∧ producer.outputs = [])
      (((plan.grown operator sources).connect ⟨source, 0⟩
        ⟨plan.size, sources.length⟩).mapError .plan) := by
  have within := (List.getElem?_eq_some_iff.mp found).1
  have found' : (plan.grown operator sources).operators[source]? = some producer := by
    rw [grown, List.getElem?_append_left within, found]
  have last : (plan.grown operator sources).operators[plan.size]? = some operator := by
    simp [grown, size]
  have free : ((plan.grown operator sources).producerOf? ⟨plan.size, sources.length⟩).isSome =
      false := by
    rw [Bool.eq_false_iff, Ne, producerOf?_isSome, List.mem_map]
    rintro ⟨edge, present, same⟩
    rcases mem_edges_grown.mp present with old | ⟨-, -, fed⟩
    · have := before edge old
      rw [same] at this
      exact lt_irrefl _ this
    · rw [same, List.getElem?_eq_none_iff.mpr le_rfl] at fed
      cases fed
  simp only [connect, get, found', last, ok_bind, free]
  cases outputs : producer.outputs with
  | nil => exact ⟨rfl, rfl⟩
  | cons first rest =>
    rw [grown_concat]
    simp [not_le.mpr room, Except.mapError, pure, Except.pure, Concludes]

end Plan

theorem Operator.widened_spread (operator : Operator) (names : List String) (name : String) :
    (operator.spread names).widened name = operator.spread (names ++ [name]) := by
  simp [Operator.spread, Operator.widened]

namespace PipelineDraft

theorem find_cases (draft : PipelineDraft) (names : List String) :
    (∃ sources, names.mapM draft.find = .ok sources ∧
      List.Forall₂ (fun name id => draft.names.get? name = some id) names sources) ∨
    ∃ name, names.mapM draft.find = .error (.unknownStep name) := by
  have each : ∀ name ∈ names,
      (∃ id, draft.find name = .ok id ∧ draft.names.get? name = some id) ∨
        ∃ fault, draft.find name = .error fault ∧ fault = .unknownStep name := by
    intro name _
    rw [find]
    cases draft.names.get? name with
    | none => exact .inr ⟨_, rfl, rfl⟩
    | some id => exact .inl ⟨id, rfl, rfl⟩
  rcases mapM_cases each with found | ⟨name, _, _, failed, rfl⟩
  · exact .inl found
  · exact .inr ⟨name, failed⟩

def Mute (plan : Plan) (asked : Nat → Prop) (error : PlanError) : Prop :=
  ∃ source producer, asked source ∧ plan.operators[source]? = some producer ∧
    producer.outputs = [] ∧ error = .noSuchSlot source .output 0

variable {plan : Plan} {operator : Operator}

theorem concludes_connectMain {inputs : List Nat}
    (before : ∀ edge ∈ plan.edges, edge.target.operator < plan.size)
    (known : ∀ source ∈ inputs, source < plan.size)
    (room : inputs.length ≤ operator.inputs.length) :
    Concludes (· = plan.grown operator inputs) (Mute plan (· ∈ inputs))
      (connectMain (plan.grown operator []) plan.size inputs) := by
  have all : Concludes (· = plan.grown operator (inputs.take inputs.zipIdx.length))
      (Mute plan (· ∈ inputs)) (connectMain (plan.grown operator []) plan.size inputs) := by
    refine Concludes.foldlM
      (fun place state => state = plan.grown operator (inputs.take place)) ?_ rfl
    rintro place ⟨source, slot⟩ found state rfl
    rw [List.getElem?_zipIdx, Option.map_eq_some_iff] at found
    obtain ⟨_, here, same⟩ := found
    cases same
    have inside := (List.getElem?_eq_some_iff.mp here).1
    have listed := List.mem_of_getElem? here
    have producer := List.getElem?_eq_getElem (known source listed)
    have length : (inputs.take place).length = place := List.length_take_of_le inside.le
    have joined := Plan.concludes_connect operator (inputs.take place) before producer (by omega)
    rw [length] at joined
    rw [Nat.zero_add, List.take_add_one, here]
    refine joined.imp (fun _ same => same) ?_
    rintro _ ⟨rfl, mute⟩
    exact ⟨source, _, listed, producer, mute, rfl⟩
  rwa [List.length_zipIdx, List.take_length] at all

def Spread (draft : PipelineDraft) (operator : Operator) (sources : List Nat)
    (rows : List (String × String)) (plan : Plan) : Prop :=
  ∃ others, plan = draft.plan.grown (operator.spread (rows.map (·.1))) (sources ++ others) ∧
    List.Forall₂ (fun row id => draft.names.get? row.2 = some id) rows others

theorem concludes_connectBroadcasts {draft : PipelineDraft} {sources : List Nat}
    (before : ∀ edge ∈ draft.plan.edges, edge.target.operator < draft.plan.size)
    (known : ∀ name id, draft.names.get? name = some id → id < draft.plan.size)
    (filled : sources.length = operator.inputs.length) (broadcasts : Table String) :
    Concludes (draft.Spread operator sources broadcasts.rows)
      (Mute draft.plan fun id => ∃ row ∈ broadcasts.rows, draft.names.get? row.2 = some id)
      (connectBroadcasts draft (draft.plan.grown operator sources) draft.plan.size broadcasts) := by
  obtain ⟨rows⟩ := broadcasts
  have all : Concludes (draft.Spread operator sources (rows.take rows.length))
      (Mute draft.plan fun id => ∃ row ∈ rows, draft.names.get? row.2 = some id)
      (connectBroadcasts draft (draft.plan.grown operator sources) draft.plan.size ⟨rows⟩) := by
    refine Concludes.foldlM (fun place => draft.Spread operator sources (rows.take place)) ?_
      ⟨[], by simp [Operator.spread], .nil⟩
    rintro place ⟨name, step⟩ here state ⟨others, rfl, beside⟩
    simp only [find]
    cases found : draft.names.get? step with
    | none => trivial
    | some id =>
      have producer := List.getElem?_eq_getElem (known step id found)
      let names := (rows.take place).map (·.1)
      have count : (operator.spread names).inputs.length = (sources ++ others).length := by
        simp only [names, Operator.spread, List.length_append, List.length_map, filled,
          beside.length_eq]
      have room : (sources ++ others).length <
          (operator.spread (names ++ [name])).inputs.length := by
        rw [← count, ← Operator.widened_spread, Operator.widened, List.length_append]
        exact Nat.lt_succ_self _
      have more : rows.take (place + 1) = rows.take place ++ [(name, step)] := by
        rw [List.take_add_one, here]
        rfl
      simp only [ok_bind, Plan.addBroadcast_grown, Except.mapError, Operator.widened_spread]
      rw [count]
      refine (Plan.concludes_connect _ (sources ++ others) before producer room).imp ?_ ?_
      · rintro _ rfl
        refine ⟨others ++ [id], ?_, ?_⟩
        · rw [more, List.map_append, List.append_assoc]
          rfl
        · rw [more]
          exact List.rel_append beside (.cons found .nil)
      · rintro _ ⟨rfl, mute⟩
        exact ⟨id, _, ⟨_, List.mem_of_getElem? here, found⟩, producer, mute, rfl⟩
  rwa [List.take_length] at all

end PipelineDraft

/-! ## Drafts -/

structure Supplies (steps : List PipelineStep) (place : Nat) (step : PipelineStep)
    (sources : List Nat) : Prop where
  counted : step.Counted
  full : sources.length = step.action.kind.inputs
  feeds : ∀ slot source, sources[slot]? = some source → Feeds steps source place slot

/-- What holds of a draft after a number of steps. -/
structure Follows (steps : List PipelineStep) (done : Nat) (draft : PipelineDraft) : Prop where
  operators : draft.plan.operators = (steps.take done).mapIdx PipelineStep.operator
  within : done ≤ steps.length
  counted : ∀ step ∈ steps.take done, step.Counted
  fed : ∀ target < done, ∀ step, steps[target]? = some step →
    ∀ slot < step.width, ∃ source, Feeds steps source target slot
  edges : ∀ edge, edge ∈ draft.plan.edges ↔ edge.target.operator < done ∧ edge.source.slot = 0 ∧
    Feeds steps edge.source.operator edge.target.operator edge.target.slot
  single : (draft.plan.edges.map (·.target)).Nodup
  names : ∀ name id, draft.names.get? name = some id ↔ id < done ∧ Named steps id name
  previous : ∀ last, draft.previous = some last ↔ last + 1 = done

namespace Follows

open PipelineDraft

variable {steps : List PipelineStep} {done : Nat} {draft : PipelineDraft} {step : PipelineStep}

theorem empty : Follows steps 0 .empty where
  operators := rfl
  within := Nat.zero_le _
  counted := by simp
  fed := by simp
  edges := by simp [PipelineDraft.empty, Plan.empty]
  single := .nil
  names := by simp [PipelineDraft.empty]
  previous := by simp [PipelineDraft.empty]

theorem size (follows : Follows steps done draft) : draft.plan.size = done := by
  rw [Plan.size, follows.operators, List.length_mapIdx, List.length_take_of_le follows.within]

theorem known (follows : Follows steps done draft) {name : String} {id : Nat}
    (found : draft.names.get? name = some id) : id < draft.plan.size :=
  follows.size ▸ ((follows.names name id).mp found).1

theorem target_lt (follows : Follows steps done draft) {edge : Edge}
    (present : edge ∈ draft.plan.edges) : edge.target.operator < draft.plan.size :=
  follows.size ▸ ((follows.edges edge).mp present).1

theorem exists_step (follows : Follows steps done draft) {id : Nat} {operator : Operator}
    (found : draft.plan.operators[id]? = some operator) :
    ∃ step, steps[id]? = some step ∧ operator = step.operator id := by
  rw [follows.operators, List.getElem?_mapIdx, Option.map_eq_some_iff] at found
  obtain ⟨step, here, rfl⟩ := found
  rw [List.getElem?_take] at here
  split at here
  · exact ⟨step, here, rfl⟩
  · cases here

theorem planFault (follows : Follows steps done draft) {asked : Nat → Prop}
    (feeds : ∀ source, asked source → ∃ slot, Feeds steps source done slot) {error : PlanError}
    (mute : Mute draft.plan asked error) : PlanFault steps error := by
  obtain ⟨source, producer, wanted, found, none, rfl⟩ := mute
  obtain ⟨step, here, rfl⟩ := follows.exists_step found
  obtain ⟨slot, feeding⟩ := feeds source wanted
  refine .sink here ?_ feeding
  have outputs : step.action.kind.outputs = 0 := by
    simpa [PipelineStep.operator, PipelineStep.plain, Operator.spread, Operator.create] using none
  revert outputs
  cases step.action.kind <;> simp [Kind.outputs]

theorem concludes_inputsOf (follows : Follows steps done draft) (here : steps[done]? = some step)
    {expected : PlanError → Prop} :
    Concludes (Supplies steps done step) expected (draft.inputsOf done step) := by
  have checked : ∀ sources : List Nat, (sources.length = step.action.kind.inputs → step.Counted) →
      (∀ slot source, sources[slot]? = some source → Feeds steps source done slot) →
      Concludes (Supplies steps done step) expected
        (if sources.length = step.action.kind.inputs then pure sources
        else throw (.wrongInputs done step.action.kind sources.length)) := by
    intro sources counted feeds
    split
    · next full => exact ⟨counted full, full, feeds⟩
    · trivial
  simp only [inputsOf]
  split
  · rcases find_cases draft step.inputs with ⟨sources, found, all⟩ | ⟨name, failed⟩
    · rw [found]
      refine checked sources (fun full => .inl (all.length_eq.trans full)) ?_
      intro slot source here'
      obtain ⟨name, reads, bears⟩ := getElem?_right all here'
      obtain ⟨earlier, named⟩ := (follows.names name source).mp bears
      exact .listed step name here reads earlier named
    · rw [failed]
      trivial
  · next unlisted =>
    have unlisted : step.inputs = [] := by simpa using unlisted
    split
    · next one =>
      split
      · next last before =>
        refine checked [last] (fun _ => .inr ⟨unlisted, one⟩) fun slot source only => ?_
        obtain ⟨rfl, rfl⟩ : slot = 0 ∧ last = source := by
          rw [List.getElem?_singleton] at only
          split at only
          · next first => exact ⟨first, Option.some.inj only⟩
          · cases only
        exact .follows step here unlisted one rfl ((follows.previous last).mp before)
      · trivial
    · exact checked [] (fun full => .inl (by rw [unlisted]; exact full)) (by simp)

theorem distinct (follows : Follows steps done draft) (name : String) (first second : Nat)
    (earlier : first < done) (earlier' : second < done) (named : Named steps first name)
    (named' : Named steps second name) : first = second := by
  have found := (follows.names name first).mpr ⟨earlier, named⟩
  rw [(follows.names name second).mpr ⟨earlier', named'⟩] at found
  exact (Option.some.inj found).symm

theorem grown (follows : Follows steps done draft) (here : steps[done]? = some step)
    (counted : step.Counted) {sources : List Nat}
    (feeds : ∀ slot source, sources[slot]? = some source → Feeds steps source done slot)
    (full : sources.length = step.width) {names : Table Nat}
    (named : ∀ name id, names.get? name = some id ↔ id < done + 1 ∧ Named steps id name) :
    Follows steps (done + 1) ⟨draft.plan.grown (step.operator done) sources, names, some done⟩ := by
  have taken : steps.take (done + 1) = steps.take done ++ [step] := by
    rw [List.take_add_one, here]
    rfl
  have slots : ∀ slot < step.width, ∃ source, sources[slot]? = some source := fun slot within =>
    ⟨_, List.getElem?_eq_getElem (full ▸ within)⟩
  refine ⟨?_, (List.getElem?_eq_some_iff.mp here).1, ?_, ?_, ?_, ?_, named, ?_⟩
  · rw [taken, List.mapIdx_concat, ← follows.operators, List.length_take_of_le follows.within]
    rfl
  · rw [taken]
    exact List.forall_mem_append.mpr ⟨follows.counted, List.forall_mem_singleton.mpr counted⟩
  · intro target within other here' slot inside
    rcases Nat.lt_succ_iff_lt_or_eq.mp within with earlier | rfl
    · exact follows.fed target earlier other here' slot inside
    · obtain rfl : other = step := Option.some.inj (here'.symm.trans here)
      obtain ⟨source, found⟩ := slots slot inside
      exact ⟨source, feeds slot source found⟩
  · intro edge
    rw [Plan.mem_edges_grown, follows.edges, follows.size]
    constructor
    · rintro (⟨earlier, output, feeding⟩ | ⟨output, last, found⟩)
      · exact ⟨Nat.lt_succ_of_lt earlier, output, feeding⟩
      · exact ⟨by omega, output, last ▸ feeds _ _ found⟩
    · rintro ⟨within, output, feeding⟩
      rcases Nat.lt_succ_iff_lt_or_eq.mp within with earlier | last
      · exact .inl ⟨earlier, output, feeding⟩
      · rw [last] at feeding
        -- the slot is one of the step's own, and only one operator feeds it
        obtain ⟨source, found⟩ := slots _ (feeding.slot_lt here counted)
        have same := Feeds.unique follows.distinct here counted feeding (feeds _ _ found)
        exact .inr ⟨output, last, same ▸ found⟩
  · exact Plan.nodup_grown follows.single fun _ => follows.target_lt
  · intro last
    rw [Option.some.injEq, Nat.add_right_cancel_iff, eq_comm]

/-- The numbers of the named steps stay right when a step is added that has no name. -/
theorem names_unnamed (follows : Follows steps done draft) (here : steps[done]? = some step)
    (unnamed : step.id = none) (name : String) (id : Nat) :
    draft.names.get? name = some id ↔ id < done + 1 ∧ Named steps id name := by
  rw [follows.names, Nat.lt_succ_iff_lt_or_eq]
  refine and_congr_left fun ⟨other, here', bears⟩ => (or_iff_left ?_).symm
  rintro rfl
  obtain rfl : other = step := Option.some.inj (here'.symm.trans here)
  cases unnamed.symm.trans bears

theorem names_insert (follows : Follows steps done draft) (here : steps[done]? = some step)
    {own : String} (bears : step.id = some own) (fresh : draft.names.get? own = none)
    (name : String) (id : Nat) :
    (draft.names.insert own done).get? name = some id ↔ id < done + 1 ∧ Named steps id name := by
  rw [Table.get?_insert]
  split
  · next same =>
    subst same
    constructor
    · rintro ⟨⟩
      exact ⟨Nat.lt_succ_self _, step, here, bears⟩
    · rintro ⟨within, named⟩
      rcases Nat.lt_succ_iff_lt_or_eq.mp within with earlier | rfl
      · cases fresh.symm.trans ((follows.names name id).mpr ⟨earlier, named⟩)
      · rfl
  · next other =>
    rw [follows.names, Nat.lt_succ_iff_lt_or_eq]
    refine and_congr_left fun ⟨step', here', bears'⟩ => (or_iff_left ?_).symm
    rintro rfl
    obtain rfl : step' = step := Option.some.inj (here'.symm.trans here)
    exact other (Option.some.inj (bears'.symm.trans bears))

theorem feeds_append (follows : Follows steps done draft) (here : steps[done]? = some step)
    {sources others : List Nat} (supplies : Supplies steps done step sources)
    (beside : List.Forall₂ (fun row id => draft.names.get? row.2 = some id)
      step.broadcasts.rows others) (slot source : Nat)
    (found : (sources ++ others)[slot]? = some source) : Feeds steps source done slot := by
  rcases Nat.lt_or_ge slot sources.length with main | behind
  · rw [List.getElem?_append_left main] at found
    exact supplies.feeds slot source found
  · rw [List.getElem?_append_right behind] at found
    obtain ⟨row, reads, bears⟩ := getElem?_right beside found
    obtain ⟨earlier, named⟩ := (follows.names row.2 source).mp bears
    have count := supplies.full
    exact .broadcast step row _ here reads (by omega) earlier named

/-- Adding the next step keeps what holds of a draft, and fails because of the plan only where the
rows of a sink are asked for. -/
theorem concludes_add (follows : Follows steps done draft) (here : steps[done]? = some step) :
    Concludes (Follows steps (done + 1)) (PlanFault steps) (draft.add (step, done)) := by
  have before : ∀ edge ∈ draft.plan.edges, edge.target.operator < draft.plan.size :=
    fun _ => follows.target_lt
  have added : draft.plan.addNamed (step.id.getD step.action.kind.name) step.action =
      draft.plan.grown (step.plain done) [] := by
    simp [Plan.addNamed, Plan.grown, PipelineStep.plain, follows.size]
  simp only [add, added]
  refine (follows.concludes_inputsOf here).bind ?_
  intro sources supplies
  have filled : sources.length = (step.plain done).inputs.length := by
    simpa [PipelineStep.plain, Operator.create] using supplies.full
  have listed : ∀ source ∈ sources, ∃ slot, Feeds steps source done slot := by
    intro source member
    obtain ⟨slot, found⟩ := List.mem_iff_getElem?.mp member
    exact ⟨slot, supplies.feeds slot source found⟩
  have known : ∀ source ∈ sources, source < draft.plan.size := by
    intro source member
    obtain ⟨slot, feeding⟩ := listed source member
    exact follows.size ▸ feeding.lt
  refine ((concludes_connectMain before known filled.le).imp (fun _ same => same)
    fun _ mute => follows.planFault listed mute).bind ?_
  rintro _ rfl
  refine ((concludes_connectBroadcasts before (fun _ _ => follows.known) filled step.broadcasts).imp
    (fun _ spread => spread) fun _ mute => follows.planFault ?_ mute).bind ?_
  · rintro id ⟨row, member, bears⟩
    obtain ⟨place, reads⟩ := List.mem_iff_getElem?.mp member
    obtain ⟨earlier, named⟩ := (follows.names row.2 id).mp bears
    exact ⟨_, .broadcast step row place here reads rfl earlier named⟩
  rintro _ ⟨others, rfl, beside⟩
  have fed := follows.feeds_append here supplies beside
  have full : (sources ++ others).length = step.width := by
    rw [List.length_append, supplies.full, ← beside.length_eq]
    rfl
  rw [follows.size]
  split
  · next unnamed =>
    exact follows.grown here supplies.counted fed full (follows.names_unnamed here unnamed)
  · next own bears =>
    split
    · trivial
    · next fresh =>
      have fresh := Option.not_isSome_iff_eq_none.mp fresh
      exact follows.grown here supplies.counted fed full (follows.names_insert here bears fresh)

end Follows

end CrossPlan
