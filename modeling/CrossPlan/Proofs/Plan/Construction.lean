import CrossPlan.Plan.Basic
import CrossPlan.Proofs.Sequence

/-!
# What construction guarantees of a plan

However a plan was put together, its operators stand at their numbers with the slots of their kinds,
its edges join slots that are there, and no input is fed twice.
-/

set_option autoImplicit false

namespace CrossPlan

/-- The plans that calls of construction lead to. -/
inductive Plan.Built : Plan → Prop where
  | empty : Built .empty
  | add {plan : Plan} (name : String) (action : Action) :
      Built plan → Built (plan.addNamed name action)
  | broadcast {plan changed : Plan} {id place : Nat} {name : String} :
      Built plan → plan.addBroadcast id name = .ok (changed, place) → Built changed
  | connect {plan changed : Plan} (source target : SlotRef) :
      Built plan → plan.connect source target = .ok changed → Built changed

/-- An operator has the slots of its kind, and behind its main inputs those that broadcast. -/
structure Operator.Slotted (operator : Operator) : Prop where
  outputs : operator.outputs.length = operator.kind.outputs
  inputs : operator.kind.inputs ≤ operator.inputs.length
  broadcast : ∀ place slot, operator.inputs[place]? = some slot →
    (slot.broadcast = true ↔ operator.kind.inputs ≤ place)

namespace Plan

def HasOutput (plan : Plan) (output : SlotRef) : Prop :=
  ∃ operator, plan.operators[output.operator]? = some operator ∧
    output.slot < operator.outputs.length

def HasInput (plan : Plan) (input : SlotRef) : Prop :=
  ∃ operator, plan.operators[input.operator]? = some operator ∧
    input.slot < operator.inputs.length

structure WellFormed (plan : Plan) : Prop where
  numbered : ∀ (id : Nat) (operator : Operator),
    plan.operators[id]? = some operator → operator.id = id
  slotted : ∀ operator ∈ plan.operators, operator.Slotted
  joined : ∀ edge ∈ plan.edges, plan.HasOutput edge.source ∧ plan.HasInput edge.target
  single : (plan.edges.map (·.target)).Nodup

end Plan

/-! ## Operators -/

namespace Operator

theorem slotted_create (id : Nat) (name : String) (action : Action) :
    (create id name action).Slotted where
  outputs := by simp [create, kind]
  inputs := by simp [create, kind]
  broadcast := by
    intro place slot found
    simp only [create, List.getElem?_map, Option.map_eq_some_iff,
      List.getElem?_eq_some_iff, List.getElem_range, List.length_range] at found
    obtain ⟨_, ⟨within, rfl⟩, rfl⟩ := found
    simpa [create, kind] using within

def widened (operator : Operator) (name : String) : Operator :=
  { operator with inputs := operator.inputs ++ [⟨name, true⟩] }

theorem Slotted.widened {operator : Operator} (slotted : operator.Slotted) (name : String) :
    (operator.widened name).Slotted where
  outputs := slotted.outputs
  inputs := by
    have := slotted.inputs
    simp only [Operator.widened, List.length_append, kind] at this ⊢
    omega
  broadcast := by
    intro place slot found
    simp only [Operator.widened, kind] at found ⊢
    rcases Nat.lt_or_ge place operator.inputs.length with within | beyond
    · rw [List.getElem?_append_left within] at found
      exact slotted.broadcast place slot found
    · rw [List.getElem?_append_right beyond] at found
      obtain rfl := List.mem_singleton.mp (List.mem_of_getElem? found)
      have := slotted.inputs
      simp only [kind] at this
      simp only [true_iff]
      omega

theorem mem_broadcasts {operator : Operator} {place : Nat} {name : String} :
    (place, name) ∈ operator.broadcasts ↔ operator.inputs[place]? = some ⟨name, true⟩ := by
  simp only [broadcasts, List.mem_map, List.mem_filter, Prod.mk.injEq, Prod.exists,
    List.mem_zipIdx_iff_getElem?]
  constructor
  · rintro ⟨slot, index, ⟨found, flagged⟩, rfl, rfl⟩
    rw [found, ← flagged]
  · intro found
    exact ⟨⟨name, true⟩, place, ⟨found, rfl⟩, rfl, rfl⟩

end Operator

namespace Plan

/-! ## Looking along edges -/

theorem mem_consumersOf {plan : Plan} {output input : SlotRef} :
    input ∈ plan.consumersOf output ↔ ⟨output, input⟩ ∈ plan.edges := by
  simp only [consumersOf, List.mem_map, List.mem_filter, beq_iff_eq]
  constructor
  · rintro ⟨⟨source, target⟩, ⟨present, rfl⟩, rfl⟩
    exact present
  · intro present
    exact ⟨_, ⟨present, rfl⟩, rfl⟩

theorem mem_of_producerOf? {plan : Plan} {output input : SlotRef}
    (found : plan.producerOf? input = some output) : ⟨output, input⟩ ∈ plan.edges := by
  simp only [producerOf?, Option.map_eq_some_iff] at found
  obtain ⟨⟨source, target⟩, found, rfl⟩ := found
  have same := List.find?_some found
  simp only [beq_iff_eq] at same
  rw [← same]
  exact List.mem_of_find?_eq_some found

theorem producerOf?_isSome {plan : Plan} {input : SlotRef} :
    (plan.producerOf? input).isSome = true ↔ input ∈ plan.edges.map (·.target) := by
  simp [producerOf?]

/-! ## What successful calls do -/

theorem connect_ok {plan changed : Plan} {source target : SlotRef}
    (success : plan.connect source target = .ok changed) :
    plan.HasOutput source ∧ plan.HasInput target ∧ target ∉ plan.edges.map (·.target) ∧
      changed = { plan with edges := plan.edges ++ [⟨source, target⟩] } := by
  unfold connect get at success
  cases foundSource : plan.operators[source.operator]? with
  | none => simp [foundSource, bind, Except.bind] at success
  | some producer =>
    cases foundTarget : plan.operators[target.operator]? with
    | none =>
      simp only [foundSource, foundTarget, bind, Except.bind, throw, throwThe,
        MonadExceptOf.throw] at success
      split at success <;> cases success
    | some consumer =>
      simp only [foundSource, foundTarget, bind, Except.bind, throw, throwThe, MonadExceptOf.throw,
        pure, Except.pure] at success
      split at success
      · cases success
      · next hasOutput =>
        split at success
        · cases success
        · next hasInput =>
          split at success
          · cases success
          · next free =>
            cases success
            refine ⟨⟨producer, foundSource, Nat.lt_of_not_le hasOutput⟩,
              ⟨consumer, foundTarget, Nat.lt_of_not_le hasInput⟩, ?_, rfl⟩
            intro fed
            exact free (producerOf?_isSome.mpr fed)

theorem addBroadcast_ok {plan changed : Plan} {id place : Nat} {name : String}
    (success : plan.addBroadcast id name = .ok (changed, place)) :
    ∃ operator, plan.operators[id]? = some operator ∧ place = operator.inputs.length ∧
      changed = { plan with operators := plan.operators.set id (operator.widened name) } := by
  unfold addBroadcast get at success
  cases found : plan.operators[id]? with
  | none => simp [found, bind, Except.bind] at success
  | some operator =>
    simp only [found, bind, Except.bind, pure, Except.pure, Except.ok.injEq, Prod.mk.injEq]
      at success
    exact ⟨operator, rfl, success.2.symm, success.1.symm⟩

namespace WellFormed

variable {plan : Plan}

theorem edge_eq (formed : plan.WellFormed) {a b : Edge} (first : a ∈ plan.edges)
    (second : b ∈ plan.edges) (same : a.target = b.target) : a = b :=
  List.inj_on_of_nodup_map formed.single first second same

theorem producerOf?_iff (formed : plan.WellFormed) {output input : SlotRef} :
    plan.producerOf? input = some output ↔ ⟨output, input⟩ ∈ plan.edges := by
  refine ⟨mem_of_producerOf?, fun present => ?_⟩
  have found : (plan.producerOf? input).isSome = true :=
    producerOf?_isSome.mpr (List.mem_map.mpr ⟨_, present, rfl⟩)
  obtain ⟨other, producer⟩ := Option.isSome_iff_exists.mp found
  have same := formed.edge_eq (mem_of_producerOf? producer) present rfl
  rw [producer]
  exact congrArg (fun edge : Edge => some edge.source) same

theorem nodup_consumersOf (formed : plan.WellFormed) (output : SlotRef) :
    (plan.consumersOf output).Nodup :=
  formed.single.sublist (List.filter_sublist.map _)

theorem source_lt (formed : plan.WellFormed) {edge : Edge} (present : edge ∈ plan.edges) :
    edge.source.operator < plan.size := by
  obtain ⟨⟨_, found, _⟩, _⟩ := formed.joined edge present
  exact (List.getElem?_eq_some_iff.mp found).1

theorem target_lt (formed : plan.WellFormed) {edge : Edge} (present : edge ∈ plan.edges) :
    edge.target.operator < plan.size := by
  obtain ⟨_, ⟨_, found, _⟩⟩ := formed.joined edge present
  exact (List.getElem?_eq_some_iff.mp found).1

theorem slotted_of_getElem? (formed : plan.WellFormed) {id : Nat} {operator : Operator}
    (found : plan.operators[id]? = some operator) : operator.Slotted :=
  formed.slotted operator (List.mem_of_getElem? found)

/-! ## Calls keep what is guaranteed -/

theorem empty : Plan.empty.WellFormed :=
  ⟨by simp [Plan.empty], by simp [Plan.empty], by simp [Plan.empty], by simp [Plan.empty]⟩

theorem addNamed (formed : plan.WellFormed) (name : String) (action : Action) :
    (plan.addNamed name action).WellFormed where
  numbered := by
    intro id operator found
    simp only [Plan.addNamed] at found
    rcases Nat.lt_or_ge id plan.operators.length with within | beyond
    · rw [List.getElem?_append_left within] at found
      exact formed.numbered id operator found
    · rw [List.getElem?_append_right beyond, List.getElem?_singleton] at found
      split at found
      · cases found
        simp only [Operator.create, size]
        omega
      · cases found
  slotted := by
    intro operator present
    simp only [Plan.addNamed, List.mem_append, List.mem_singleton] at present
    rcases present with old | rfl
    · exact formed.slotted operator old
    · exact Operator.slotted_create _ _ _
  joined := by
    intro edge present
    obtain ⟨⟨producer, foundProducer, output⟩, consumer, foundConsumer, input⟩ :=
      formed.joined edge present
    exact ⟨⟨producer, List.getElem?_append_left (List.getElem?_eq_some_iff.mp foundProducer).1 ▸
        foundProducer, output⟩,
      consumer, List.getElem?_append_left (List.getElem?_eq_some_iff.mp foundConsumer).1 ▸
        foundConsumer, input⟩
  single := formed.single

theorem addBroadcast (formed : plan.WellFormed) {changed : Plan} {id place : Nat} {name : String}
    (success : plan.addBroadcast id name = .ok (changed, place)) : changed.WellFormed := by
  obtain ⟨operator, found, -, rfl⟩ := addBroadcast_ok success
  have within : id < plan.operators.length := (List.getElem?_eq_some_iff.mp found).1
  let changed := plan.operators.set id (operator.widened name)
  -- every operator keeps its number and outputs, and has at least the inputs that it had
  have keeps : ∀ (other : Nat) (old : Operator), plan.operators[other]? = some old →
      ∃ new : Operator, changed[other]? = some new ∧
        new.id = old.id ∧ new.outputs = old.outputs ∧ old.inputs.length ≤ new.inputs.length := by
    intro other old present
    by_cases same : id = other
    · subst same
      rw [found, Option.some.injEq] at present
      subst present
      exact ⟨_, List.getElem?_set_self within, rfl, rfl, by simp [Operator.widened]⟩
    · exact ⟨old, by rw [List.getElem?_set_ne same]; exact present, rfl, rfl, Nat.le_refl _⟩
  refine ⟨?_, ?_, ?_, formed.single⟩
  · intro other new present
    have bound := (List.getElem?_eq_some_iff.mp present).1
    rw [List.length_set] at bound
    obtain ⟨new', present', number, -⟩ := keeps other _ (List.getElem?_eq_getElem bound)
    rw [present, Option.some.injEq] at present'
    rw [present', number]
    exact formed.numbered other _ (List.getElem?_eq_getElem bound)
  · intro new present
    rcases List.mem_or_eq_of_mem_set present with old | rfl
    · exact formed.slotted new old
    · exact (formed.slotted_of_getElem? found).widened name
  · intro edge present
    obtain ⟨⟨producer, foundProducer, output⟩, consumer, foundConsumer, input⟩ :=
      formed.joined edge present
    obtain ⟨producer', atProducer, -, sameOutputs, -⟩ := keeps _ _ foundProducer
    obtain ⟨consumer', atConsumer, -, -, moreInputs⟩ := keeps _ _ foundConsumer
    exact ⟨⟨producer', atProducer, by rw [sameOutputs]; exact output⟩,
      consumer', atConsumer, Nat.lt_of_lt_of_le input moreInputs⟩

theorem connect (formed : plan.WellFormed) {changed : Plan} {source target : SlotRef}
    (success : plan.connect source target = .ok changed) : changed.WellFormed := by
  obtain ⟨output, input, free, rfl⟩ := connect_ok success
  refine ⟨formed.numbered, formed.slotted, ?_, ?_⟩
  · intro edge present
    rw [List.mem_append, List.mem_singleton] at present
    rcases present with old | rfl
    · exact formed.joined edge old
    · exact ⟨output, input⟩
  · rw [List.map_append, List.nodup_append]
    refine ⟨formed.single, by simp, ?_⟩
    intro a old b new same
    rw [List.map_singleton, List.mem_singleton] at new
    subst new
    subst same
    exact free old

end WellFormed

theorem Built.wellFormed {plan : Plan} (built : plan.Built) : plan.WellFormed := by
  induction built with
  | empty => exact .empty
  | add name action _ ih => exact ih.addNamed name action
  | broadcast _ success ih => exact ih.addBroadcast success
  | connect _ _ _ success ih => exact ih.connect success

end Plan

end CrossPlan
