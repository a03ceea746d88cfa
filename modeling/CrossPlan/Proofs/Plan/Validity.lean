import CrossPlan.Plan.Validity
import CrossPlan.Proofs.Plan.Construction
import CrossPlan.Proofs.Precedence

/-!
# What validity guarantees of a plan

The order of a plan lists each operator once, behind the operators that feed it.  In a valid plan
every input is fed and every output is read; and a check that fails names a slot that is not.
-/

set_option autoImplicit false

namespace CrossPlan.Plan

open Sequence

variable {plan : Plan}

theorem order_ok {order : List Nat} (success : plan.order = .ok order) :
    order = Precedence.schedule (List.range plan.size) plan.precedence ∧
      ∀ id, id < plan.size → id ∈ order := by
  simp only [Plan.order] at success
  split at success
  · next complete =>
    cases success
    refine ⟨rfl, fun id within => ?_⟩
    exact Precedence.leftOut?_none.mp complete id (List.mem_range.mpr within)
  · cases success

theorem taken_order {order : List Nat} (success : plan.order = .ok order) :
    Precedence.Taken (List.range plan.size) plan.precedence order := by
  rw [(order_ok success).1]
  exact Precedence.taken_schedule

theorem mem_order {order : List Nat} (success : plan.order = .ok order) {id : Nat} :
    id ∈ order ↔ id < plan.size :=
  ⟨fun listed => List.mem_range.mp ((taken_order success).known id listed),
    (order_ok success).2 id⟩

theorem edge_forward {order : List Nat} (formed : plan.WellFormed)
    (success : plan.order = .ok order) {edge : Edge} (present : edge ∈ plan.edges) :
    order.idxOf edge.source.operator < order.idxOf edge.target.operator :=
  (taken_order success).respects.idxOf_lt (List.mem_map.mpr ⟨edge, present, rfl⟩)
    ((mem_order success).mpr (formed.target_lt present))

/-- Where all edges ascend, the operators are ordered by their numbers. -/
theorem order_of_ascending
    (ascending : ∀ edge ∈ plan.edges, edge.source.operator < edge.target.operator) :
    plan.order = .ok (List.range plan.size) := by
  have scheduled : Precedence.schedule (List.range plan.size) plan.precedence =
      List.range plan.size :=
    Precedence.schedule_range (List.forall_mem_map.mpr ascending)
  have complete := Precedence.leftOut?_none.mpr
    fun id (listed : id ∈ List.range plan.size) => listed
  rw [order, scheduled, complete]

structure Connected (plan : Plan) : Prop where
  fed : ∀ input, plan.HasInput input → ∃ output, ⟨output, input⟩ ∈ plan.edges
  read : ∀ output, plan.HasOutput output → ∃ input, ⟨output, input⟩ ∈ plan.edges

theorem checkInputs_ok_iff {operator : Operator} :
    plan.checkInputs operator = .ok () ↔ ∀ place, place < operator.inputs.length →
      ∃ output, plan.producerOf? ⟨operator.id, place⟩ = some output := by
  rw [checkInputs, forM_ok_iff]
  constructor
  · intro all place within
    have checked := all (operator.inputs[place], place)
      (List.mk_mem_zipIdx_iff_getElem?.mpr (List.getElem?_eq_getElem within))
    simp only at checked
    split at checked
    · cases checked
    · next found => exact Option.ne_none_iff_exists'.mp (by simpa using found)
  · rintro fed ⟨slot, place⟩ listed
    have found := List.mk_mem_zipIdx_iff_getElem?.mp listed
    obtain ⟨output, producer⟩ := fed place (List.getElem?_eq_some_iff.mp found).1
    simp [producer]

theorem checkOutputs_ok_iff {operator : Operator} :
    plan.checkOutputs operator = .ok () ↔ ∀ place, place < operator.outputs.length →
      ∃ input, input ∈ plan.consumersOf ⟨operator.id, place⟩ := by
  rw [checkOutputs, forM_ok_iff]
  constructor
  · intro all place within
    have checked := all (operator.outputs[place], place)
      (List.mk_mem_zipIdx_iff_getElem?.mpr (List.getElem?_eq_getElem within))
    simp only at checked
    split at checked
    · cases checked
    · next found => exact List.exists_mem_of_ne_nil _ (by simpa using found)
  · rintro read ⟨slot, place⟩ listed
    have found := List.mk_mem_zipIdx_iff_getElem?.mp listed
    obtain ⟨input, consumer⟩ := read place (List.getElem?_eq_some_iff.mp found).1
    simp [List.ne_nil_of_mem consumer]

theorem checkInputs_error {operator : Operator} {error : PlanError}
    (failed : plan.checkInputs operator = .error error) :
    ∃ place slot, operator.inputs[place]? = some slot ∧
      plan.producerOf? ⟨operator.id, place⟩ = none ∧
      error = .unconnectedInput operator.id slot.name place := by
  obtain ⟨⟨slot, place⟩, listed, failed⟩ := exists_forM_error failed
  simp only at failed
  split at failed
  · next missing =>
    cases failed
    exact ⟨place, slot, List.mk_mem_zipIdx_iff_getElem?.mp listed, by simpa using missing, rfl⟩
  · cases failed

theorem checkOutputs_error {operator : Operator} {error : PlanError}
    (failed : plan.checkOutputs operator = .error error) :
    ∃ place slot, operator.outputs[place]? = some slot ∧
      plan.consumersOf ⟨operator.id, place⟩ = [] ∧
      error = .danglingOutput operator.id slot.name place := by
  obtain ⟨⟨slot, place⟩, listed, failed⟩ := exists_forM_error failed
  simp only at failed
  split at failed
  · next missing =>
    cases failed
    exact ⟨place, slot, List.mk_mem_zipIdx_iff_getElem?.mp listed, by simpa using missing, rfl⟩
  · cases failed

theorem connected_iff (formed : plan.WellFormed) : plan.Connected ↔
    ∀ operator ∈ plan.operators,
      plan.checkInputs operator = .ok () ∧ plan.checkOutputs operator = .ok () := by
  simp only [checkInputs_ok_iff, checkOutputs_ok_iff]
  constructor
  · intro connected operator present
    obtain ⟨id, found⟩ := List.mem_iff_getElem?.mp present
    rw [formed.numbered id operator found]
    constructor
    · intro place within
      obtain ⟨output, edge⟩ := connected.fed ⟨id, place⟩ ⟨operator, found, within⟩
      exact ⟨output, formed.producerOf?_iff.mpr edge⟩
    · intro place within
      obtain ⟨input, edge⟩ := connected.read ⟨id, place⟩ ⟨operator, found, within⟩
      exact ⟨input, mem_consumersOf.mpr edge⟩
  · intro checked
    constructor
    · rintro ⟨id, place⟩ ⟨operator, found, within⟩
      obtain ⟨output, producer⟩ := (checked operator (List.mem_of_getElem? found)).1 place within
      rw [formed.numbered id operator found] at producer
      exact ⟨output, mem_of_producerOf? producer⟩
    · rintro ⟨id, place⟩ ⟨operator, found, within⟩
      obtain ⟨input, consumer⟩ := (checked operator (List.mem_of_getElem? found)).2 place within
      rw [formed.numbered id operator found] at consumer
      exact ⟨input, mem_consumersOf.mp consumer⟩

theorem validate_ok_iff (formed : plan.WellFormed) : plan.validate = .ok () ↔
    plan.operators ≠ [] ∧ (∃ order, plan.order = .ok order) ∧ plan.Connected := by
  rw [connected_iff formed, validate]
  by_cases empty : plan.operators = []
  · simp [empty, throw, throwThe, MonadExceptOf.throw, bind, Except.bind]
  · have filled : ¬ plan.operators.isEmpty = true := by simpa using empty
    rw [if_neg filled]
    change (plan.order >>= fun _ => _) = _ ↔ _
    rw [bind_ok_iff]
    constructor
    · rintro ⟨order, ordered, checked⟩
      refine ⟨empty, ⟨order, ordered⟩, fun operator present => ?_⟩
      exact seq_ok_iff.mp (forM_ok_iff.mp checked operator present)
    · rintro ⟨-, ⟨order, ordered⟩, checked⟩
      refine ⟨order, ordered, forM_ok_iff.mpr fun operator present => ?_⟩
      exact seq_ok_iff.mpr (checked operator present)

theorem validate_ok (formed : plan.WellFormed) (valid : plan.validate = .ok ()) :
    (∃ order, plan.order = .ok order) ∧ plan.Connected :=
  ((validate_ok_iff formed).mp valid).2

/-- What is wrong with a plan that is refused: it is empty, it has no order, or a slot of one of its
operators is left alone. -/
theorem validate_error {error : PlanError} (failed : plan.validate = .error error) :
    (plan.operators = [] ∧ error = .empty) ∨ plan.order = .error error ∨
      ∃ operator ∈ plan.operators,
        plan.checkInputs operator = .error error ∨ plan.checkOutputs operator = .error error := by
  rw [validate] at failed
  by_cases empty : plan.operators = []
  · rw [if_pos (by simpa using empty)] at failed
    cases failed
    exact .inl ⟨empty, rfl⟩
  · rw [if_neg (by simpa using empty)] at failed
    change (plan.order >>= fun _ => _) = _ at failed
    cases ordered : plan.order with
    | error fault =>
      rw [ordered] at failed
      cases failed
      exact .inr (.inl rfl)
    | ok order =>
      rw [ordered] at failed
      obtain ⟨operator, present, failed⟩ := exists_forM_error failed
      refine .inr (.inr ⟨operator, present, ?_⟩)
      cases inputs : plan.checkInputs operator with
      | error fault =>
        rw [inputs] at failed
        cases failed
        exact .inl rfl
      | ok =>
        rw [inputs] at failed
        exact .inr failed

end CrossPlan.Plan
