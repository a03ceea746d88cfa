import CrossPlan.Proofs.Channel.Routing
import CrossPlan.Proofs.Pattern.Boundary
import CrossPlan.Proofs.Selection.Assignment

/-!
# What is handed over between candidates

An output of the plan is handed over exactly where it is read by operators of other candidates than
its own, and each of these readers takes it at the slot of its boundary.
-/

set_option autoImplicit false

namespace CrossPlan

open Sequence

variable {α : Type}

/-! ## Candidates at their boundaries -/

/-- A replacement has a slot for each boundary of its match, and the boundaries are the slots by
which the covered operators are joined to others. -/
structure Candidate.Joined (plan : Plan) (candidate : Candidate α) : Prop where
  inputs : candidate.replacement.inputs.length = candidate.matched.inputs.length
  outputs : candidate.replacement.outputs.length = candidate.matched.outputs.length
  forward : candidate.replacement.isForward = true
  distinctInputs : candidate.matched.inputs.Nodup
  distinctOutputs : candidate.matched.outputs.Nodup
  hasInput : ∀ input ∈ candidate.matched.inputs,
    plan.HasInput input ∧ input.operator ∈ candidate.covered
  hasOutput : ∀ output ∈ candidate.matched.outputs,
    plan.HasOutput output ∧ output.operator ∈ candidate.covered
  fedOutside : ∀ edge ∈ plan.edges, edge.target.operator ∈ candidate.covered →
    (edge.target ∈ candidate.matched.inputs ↔ edge.source.operator ∉ candidate.covered)
  readOutside : ∀ edge ∈ plan.edges, edge.source.operator ∈ candidate.covered →
    (edge.source ∈ candidate.matched.outputs ↔ edge.target.operator ∉ candidate.covered)

theorem Candidate.Derived.joined {registry : RuleRegistry α} {plan : Plan} {epoch : Nat}
    {candidate : Candidate α} {rule : Rule α} {operators : List Operator}
    (derived : candidate.Derived registry plan epoch rule operators)
    (accepted : rule.pattern.Accepted) (formed : plan.WellFormed) : candidate.Joined plan := by
  have registered := accepted.registered
  obtain ⟨image, embeds, same⟩ := derived.embeds accepted formed
  have covered : ∀ id, id ∈ candidate.covered ↔ rule.pattern.Matched image id := by
    intro id
    rw [Candidate.covered, same]
    exact Pattern.Embeds.mem_covered
  refine ⟨derived.inputs, derived.outputs, derived.forward, ?_, ?_, ?_, ?_, ?_, ?_⟩
  · rw [same]
    exact embeds.nodup_inputs registered formed
  · rw [same]
    exact embeds.nodup_outputs registered
  · intro input listed
    rw [same] at listed
    rw [covered]
    exact embeds.hasInput_of_mem_inputs registered formed listed
  · intro output listed
    rw [same] at listed
    rw [covered]
    exact embeds.hasOutput_of_mem_outputs registered formed listed
  · intro edge present matched
    rw [covered] at matched ⊢
    rw [same]
    exact embeds.target_mem_inputs_iff registered formed present matched
  · intro edge present matched
    rw [covered] at matched ⊢
    rw [same]
    exact embeds.source_mem_outputs_iff registered formed present matched

theorem RuleRegistry.joined_of_mem [Quantity α] {registry : RuleRegistry α}
    {estimator : Estimator α} {weights : CostWeights α} {plan : Plan} {known : PlanStatistics}
    {epoch : Nat} {candidates : List (Candidate α)}
    (accepted : ∀ rule ∈ registry.rules, rule.pattern.Accepted) (formed : plan.WellFormed)
    (matched : registry.candidates estimator weights plan known epoch = .ok candidates) :
    ∀ candidate ∈ candidates, candidate.Joined plan := by
  intro candidate present
  obtain ⟨rule, operators, derived⟩ := derived_of_mem matched present
  exact derived.joined (accepted rule (List.mem_of_getElem? derived.registered)) formed

namespace Problem

variable {problem : Problem α}

/-! ## Groups -/

theorem mem_groupsOf {plan : Plan} {order : List Nat} (known : ∀ id, id ∈ order ↔ id < plan.size)
    {group : OutputGroup} : group ∈ groupsOf plan order ↔
      plan.HasOutput group.producer ∧ group.consumers = plan.consumersOf group.producer := by
  obtain ⟨⟨id, slot⟩, consumers⟩ := group
  simp only [groupsOf, List.mem_flatMap, Plan.HasOutput]
  constructor
  · rintro ⟨other, -, listed⟩
    split at listed
    · next operator found =>
      obtain ⟨slot, within, same⟩ := List.mem_map.mp listed
      cases same
      exact ⟨⟨operator, found, List.mem_range.mp within⟩, rfl⟩
    · cases listed
  · rintro ⟨⟨operator, found, within⟩, rfl⟩
    refine ⟨id, (known id).mpr (List.getElem?_eq_some_iff.mp found).1, ?_⟩
    rw [found]
    exact List.mem_map.mpr ⟨slot, List.mem_range.mpr within, rfl⟩

theorem operator_of_mem_groupsOf {plan : Plan} {order : List Nat} {group : OutputGroup}
    (listed : group ∈ groupsOf plan order) : group.producer.operator ∈ order := by
  obtain ⟨id, known, member⟩ := List.mem_flatMap.mp listed
  split at member
  · obtain ⟨slot, -, rfl⟩ := List.mem_map.mp member
    exact known
  · cases member

theorem nodup_producers {plan : Plan} {order : List Nat} (distinct : order.Nodup) :
    ((groupsOf plan order).map (·.producer)).Nodup := by
  induction order with
  | nil => exact List.nodup_nil
  | cons id rest ih =>
    obtain ⟨fresh, distinct⟩ := List.nodup_cons.mp distinct
    have split : groupsOf plan (id :: rest) = groupsOf plan [id] ++ groupsOf plan rest := by
      simp only [groupsOf, List.flatMap_cons, List.flatMap_nil, List.append_nil]
    rw [split, List.map_append]
    refine List.nodup_append.mpr ⟨?_, ih distinct, ?_⟩
    · simp only [groupsOf, List.flatMap_cons, List.flatMap_nil, List.append_nil]
      split
      · rw [List.map_map]
        exact List.nodup_range.map fun _ _ => congrArg SlotRef.slot
      · exact List.nodup_nil
    · rintro _ first _ second rfl
      obtain ⟨group, here, rfl⟩ := List.mem_map.mp first
      obtain ⟨group', there, same⟩ := List.mem_map.mp second
      have one := operator_of_mem_groupsOf here
      have two := operator_of_mem_groupsOf there
      rw [same, List.mem_singleton.mp one] at two
      exact fresh two

namespace Prepared

variable [Quantity α]

theorem mem_groups (prepared : problem.Prepared) {group : OutputGroup} : group ∈ problem.groups ↔
    problem.plan.HasOutput group.producer ∧
      group.consumers = problem.plan.consumersOf group.producer := by
  rw [prepared.groups]
  exact mem_groupsOf fun _ => Plan.mem_order prepared.order

theorem nodup_groups (prepared : problem.Prepared) :
    (problem.groups.map (·.producer)).Nodup := by
  rw [prepared.groups]
  exact nodup_producers prepared.nodup_order

theorem chosen?_iff (prepared : problem.Prepared) {assigned : Assignment} {selection : List Nat}
    (fills : problem.Fills assigned selection) {id candidate : Nat} :
    problem.chosen? assigned id = some candidate ↔ candidate ∈ selection ∧
      ∃ found, problem.candidates[candidate]? = some found ∧ id ∈ found.covered := by
  simp only [chosen?, Option.bind_eq_some_iff, prepared.idxOf?_iff]
  constructor
  · rintro ⟨place, here, held⟩
    obtain ⟨listed, found, present, other, covered, there⟩ := (fills.holds place candidate).mp held
    rw [here, Option.some.injEq] at there
    subst there
    exact ⟨listed, found, present, covered⟩
  · rintro ⟨listed, found, present, covered⟩
    have known := prepared.within found (List.mem_of_getElem? present) id covered
    exact ⟨problem.order.idxOf id, List.getElem?_idxOf known,
      (fills.holds _ _).mpr ⟨listed, found, present, id, covered, List.getElem?_idxOf known⟩⟩

end Prepared

/-! ## Slots -/

theorem outputSlot?_iff {chosen : Nat} {output : SlotRef} {slot : CandidateSlot}
    {operator : BoundOperator α} {candidate : Candidate α}
    (found : problem.candidates[chosen]? = some candidate)
    (distinct : candidate.matched.outputs.Nodup) :
    problem.outputSlot? chosen output = some (slot, operator) ↔ slot.candidate = chosen ∧
      (∃ place : Nat, candidate.matched.outputs[place]? = some output ∧
        candidate.replacement.outputs[place]? = some slot.slot) ∧
      candidate.replacement.operators[slot.slot.operator]? = some operator := by
  simp only [outputSlot?, found, Option.bind_eq_bind, Option.bind_some, Option.bind_eq_some_iff,
    idxOf?_iff distinct, Option.pure_def, Option.some.injEq, Prod.mk.injEq]
  constructor
  · rintro ⟨place, listed, inner, joined, _, found, rfl, rfl⟩
    exact ⟨rfl, ⟨place, listed, joined⟩, found⟩
  · rintro ⟨rfl, ⟨place, listed, joined⟩, found⟩
    exact ⟨place, listed, slot.slot, joined, operator, found, rfl, rfl⟩

theorem inputSlot?_iff {chosen : Nat} {input : SlotRef} {slot : CandidateSlot}
    {operator : BoundOperator α} {candidate : Candidate α}
    (found : problem.candidates[chosen]? = some candidate)
    (distinct : candidate.matched.inputs.Nodup) :
    problem.inputSlot? chosen input = some (slot, operator) ↔ slot.candidate = chosen ∧
      (∃ place : Nat, candidate.matched.inputs[place]? = some input ∧
        candidate.replacement.inputs[place]? = some slot.slot) ∧
      candidate.replacement.operators[slot.slot.operator]? = some operator := by
  simp only [inputSlot?, found, Option.bind_eq_bind, Option.bind_some, Option.bind_eq_some_iff,
    idxOf?_iff distinct, Option.pure_def, Option.some.injEq, Prod.mk.injEq]
  constructor
  · rintro ⟨place, listed, inner, joined, _, found, rfl, rfl⟩
    exact ⟨rfl, ⟨place, listed, joined⟩, found⟩
  · rintro ⟨rfl, ⟨place, listed, joined⟩, found⟩
    exact ⟨place, listed, slot.slot, joined, operator, found, rfl, rfl⟩

/-! ## Handing over -/

theorem outsideConsumers_ok {assigned : Assignment} {group : OutputGroup} {producer : Nat}
    {outside : List (SlotRef × Nat)}
    (success : problem.outsideConsumers assigned group producer = .ok outside) :
    (outside.map (·.1)).Sublist group.consumers ∧
      (∀ entry ∈ outside, problem.chosen? assigned entry.1.operator = some entry.2 ∧
        entry.2 ≠ producer) ∧
      ∀ input ∈ group.consumers, ∃ candidate,
        problem.chosen? assigned input.operator = some candidate ∧
          (candidate ≠ producer → (input, candidate) ∈ outside) := by
  obtain ⟨consumers, all, success⟩ := bind_ok_iff.mp success
  cases success
  have each : List.Forall₂ (fun (input : SlotRef) (entry : SlotRef × Nat) => entry.1 = input ∧
      problem.chosen? assigned input.operator = some entry.2) group.consumers consumers := by
    refine (mapM_ok_iff.mp all).imp fun input entry found => ?_
    split at found
    · next candidate chosen =>
      cases found
      exact ⟨rfl, chosen⟩
    · cases found
  refine ⟨?_, ?_, ?_⟩
  · have names : consumers.map (·.1) = group.consumers := by
      have paired : List.Forall₂ Eq (consumers.map (·.1)) group.consumers :=
        List.forall₂_map_left_iff.mpr (List.Forall₂.flip (each.imp fun _ _ both => both.1))
      exact List.forall₂_eq_eq_eq ▸ paired
    rw [← names]
    exact List.filter_sublist.map _
  · intro entry listed
    obtain ⟨among, other⟩ := List.mem_filter.mp listed
    obtain ⟨input, -, rfl, chosen⟩ := mem_right each among
    exact ⟨chosen, by simpa using other⟩
  · intro input member
    obtain ⟨⟨_, candidate⟩, among, rfl, chosen⟩ := mem_left each member
    exact ⟨candidate, chosen, fun other => List.mem_filter.mpr ⟨among, by simpa using other⟩⟩

variable [Quantity α]

structure HandedOver (problem : Problem α) (group : OutputGroup) (producer : Nat)
    (outside : List (SlotRef × Nat)) (outcome : GroupOutcome α) (source : BoundOperator α)
    (targets : List ((CandidateSlot × Bool) × List Form)) : Prop where
  read : outside ≠ []
  output : problem.outputSlot? producer group.producer = some (outcome.producer, source)
  inputs : List.Forall₂ (fun entry target => ∃ operator,
    problem.inputSlot? entry.2 entry.1 = some (target.1.1, operator) ∧
      target.1.2 = (operator.platform != source.platform) ∧
      target.2 = acceptedOn (operator.inputForms target.1.1.slot.slot)
        (problem.isBroadcast entry.1)) outside targets
  consumers : outcome.consumers = targets.map (·.1)
  routes : ∃ stepCost, resolveGroup (source.outputForms outcome.producer.slot.slot)
    (targets.map (·.2)) stepCost = .ok outcome.routes

/-- A group is handed over where it is read outside the candidate of its producer. -/
theorem handOver_ok {assigned : Assignment} {group : OutputGroup} {costs : List α}
    {found : Option (GroupOutcome α)}
    (success : problem.handOver assigned group costs = .ok found) :
    ∃ producer outside, problem.chosen? assigned group.producer.operator = some producer ∧
      problem.outsideConsumers assigned group producer = .ok outside ∧
      ((outside = [] ∧ found = none) ∨ ∃ outcome source targets, found = some outcome ∧
        problem.HandedOver group producer outside outcome source targets) := by
  unfold handOver at success
  dsimp only at success
  split at success
  · cases success
  next producer chosen =>
  obtain ⟨outside, consumers, success⟩ := bind_ok_iff.mp success
  refine ⟨producer, outside, chosen, consumers, ?_⟩
  split at success
  · cases success
    exact Or.inl ⟨rfl, rfl⟩
  next first rest =>
  obtain ⟨⟨slot, source⟩, output, success⟩ := bind_ok_iff.mp success
  obtain ⟨targets, inputs, success⟩ := bind_ok_iff.mp success
  split at success
  · next routes resolved =>
    cases success
    refine Or.inr ⟨_, source, targets, rfl, ⟨by simp, ?_, ?_, rfl, _, resolved⟩⟩
    · split at output
      · next found => rw [found, Except.ok.inj output]
      · cases output
    · refine (mapM_ok_iff.mp inputs).imp ?_
      rintro ⟨input, candidate⟩ target made
      obtain ⟨⟨consumer, operator⟩, found, made⟩ := bind_ok_iff.mp made
      cases made
      refine ⟨operator, ?_, rfl, rfl⟩
      split at found
      · next here => rw [here, Except.ok.inj found]
      · cases found
  · cases success

end Problem

end CrossPlan
