import CrossPlan.Proofs.Plan.Ordering

/-!
# What an error says of a plan

A slot that is named as unconnected or dangling is one of the plan's, and no edge ends or starts
there.  An operator that is named for a cycle is the least of those on a cycle or behind one.  It
lies on a cycle itself only if some operator on a cycle has a number as small as all operators
behind cycles have: rows that leave a cycle for an operator that was added first get this operator
named.
-/

set_option autoImplicit false

namespace CrossPlan.Plan

open Precedence Sequence

variable {plan : Plan}

def OnCycle (plan : Plan) (id : Nat) : Prop :=
  Relation.TransGen (Precedes plan.precedence) id id

/-- An operator that lies on a cycle or is fed, directly or through others, by one that does. -/
def BehindCycle (plan : Plan) (id : Nat) : Prop := Blocked plan.precedence id

def Fault (plan : Plan) : PlanError → Prop
  | .empty => plan.operators = []
  | .cycle id => IsLeast {other | plan.BehindCycle other} id
  | .unconnectedInput id name place =>
    (∃ operator slot, plan.operators[id]? = some operator ∧ operator.inputs[place]? = some slot ∧
      slot.name = name) ∧ ∀ edge ∈ plan.edges, edge.target ≠ ⟨id, place⟩
  | .danglingOutput id name place =>
    (∃ operator slot, plan.operators[id]? = some operator ∧ operator.outputs[place]? = some slot ∧
      slot.name = name) ∧ ∀ edge ∈ plan.edges, edge.source ≠ ⟨id, place⟩
  | .unknownOperator _ | .noSuchSlot .. | .inputAlreadyConnected .. => False

theorem OnCycle.behindCycle {id : Nat} (loop : plan.OnCycle id) : plan.BehindCycle id :=
  ⟨id, loop, .refl⟩

theorem fault_of_order (formed : plan.WellFormed) {error : PlanError}
    (failed : plan.order = .error error) : plan.Fault error := by
  obtain ⟨id, rfl, least⟩ := (order_error_iff formed).mp failed
  exact least

theorem fault_of_checkInputs (formed : plan.WellFormed) {operator : Operator} {error : PlanError}
    (present : operator ∈ plan.operators) (failed : plan.checkInputs operator = .error error) :
    plan.Fault error := by
  obtain ⟨id, found⟩ := List.mem_iff_getElem?.mp present
  obtain ⟨place, slot, here, unfed, rfl⟩ := checkInputs_error failed
  rw [formed.numbered id operator found] at unfed ⊢
  refine ⟨⟨operator, slot, found, here, rfl⟩, fun edge listed ends => ?_⟩
  have fed : (plan.producerOf? ⟨id, place⟩).isSome = true :=
    producerOf?_isSome.mpr (List.mem_map.mpr ⟨edge, listed, ends⟩)
  simp [unfed] at fed

theorem fault_of_checkOutputs (formed : plan.WellFormed) {operator : Operator} {error : PlanError}
    (present : operator ∈ plan.operators) (failed : plan.checkOutputs operator = .error error) :
    plan.Fault error := by
  obtain ⟨id, found⟩ := List.mem_iff_getElem?.mp present
  obtain ⟨place, slot, here, unread, rfl⟩ := checkOutputs_error failed
  rw [formed.numbered id operator found] at unread ⊢
  refine ⟨⟨operator, slot, found, here, rfl⟩, fun ⟨source, target⟩ listed starts => ?_⟩
  have read : target ∈ plan.consumersOf ⟨id, place⟩ := mem_consumersOf.mpr (starts ▸ listed)
  simp [unread] at read

theorem fault_of_validate (formed : plan.WellFormed) {error : PlanError}
    (failed : plan.validate = .error error) : plan.Fault error := by
  rcases validate_error failed with ⟨none, rfl⟩ | unordered | ⟨operator, present, unfed | unread⟩
  · exact none
  · exact fault_of_order formed unordered
  · exact fault_of_checkInputs formed present unfed
  · exact fault_of_checkOutputs formed present unread

theorem onCycle_iff_of_least {id : Nat} (least : IsLeast {other | plan.BehindCycle other} id) :
    plan.OnCycle id ↔
      ∀ other, plan.BehindCycle other → ∃ looped, looped ≤ other ∧ plan.OnCycle looped := by
  constructor
  · intro loop other behind
    exact ⟨id, least.2 behind, loop⟩
  · intro early
    obtain ⟨looped, before, loop⟩ := early id least.1
    have same : looped = id := Nat.le_antisymm before (least.2 loop.behindCycle)
    exact same ▸ loop

/-- An error of a plan that was put together points at what is wrong; and the operator that is
named for a cycle lies on one exactly if each operator behind a cycle has one on a cycle that does
not come after it. -/
theorem fault_of_error (built : plan.Built) {error : PlanError}
    (failed : plan.order = .error error ∨ plan.validate = .error error) :
    plan.Fault error ∧ ∀ id, error = .cycle id →
      (plan.OnCycle id ↔
        ∀ other, plan.BehindCycle other → ∃ looped, looped ≤ other ∧ plan.OnCycle looped) := by
  have fault : plan.Fault error :=
    failed.elim (fault_of_order built.wellFormed) (fault_of_validate built.wellFormed)
  refine ⟨fault, ?_⟩
  rintro id rfl
  exact onCycle_iff_of_least fault

def trailing : Plan :=
  { operators :=
      [.create 0 "out" (.sink "memory://rows"), .create 1 "there" (.map "a AS b"),
        .create 2 "back" (.map "b AS a")]
    edges := [⟨⟨1, 0⟩, ⟨2, 0⟩⟩, ⟨⟨2, 0⟩, ⟨1, 0⟩⟩, ⟨⟨1, 0⟩, ⟨0, 0⟩⟩] }

theorem built_trailing : trailing.Built := by
  have operators := ((Plan.Built.empty.add "out" (.sink "memory://rows")).add "there"
    (.map "a AS b")).add "back" (.map "b AS a")
  exact ((operators.connect ⟨1, 0⟩ ⟨2, 0⟩ rfl).connect ⟨2, 0⟩ ⟨1, 0⟩ rfl).connect
    ⟨1, 0⟩ ⟨0, 0⟩ rfl

/-- The sink is named for the cycle of the maps, on which it does not lie: it comes before them. -/
theorem fault_of_error_trailing :
    trailing.validate = .error (.cycle 0) ∧ IsLeast {other | trailing.BehindCycle other} 0 ∧
      ¬ trailing.OnCycle 0 ∧ trailing.OnCycle 1 ∧
      ¬ ∀ other, trailing.BehindCycle other →
        ∃ looped, looped ≤ other ∧ trailing.OnCycle looped := by
  have refused : trailing.validate = .error (.cycle 0) := rfl
  obtain ⟨least, named⟩ := fault_of_error built_trailing (.inr refused)
  have apart : ¬ trailing.OnCycle 0 := by
    intro loop
    obtain ⟨later, step, -⟩ := Relation.TransGen.head'_iff.mp loop
    simp [Precedes, trailing, precedence] at step
  have there : Precedes trailing.precedence 1 2 := (by decide : (1, 2) ∈ trailing.precedence)
  have back : Precedes trailing.precedence 2 1 := (by decide : (2, 1) ∈ trailing.precedence)
  exact ⟨refused, least, apart, .tail (.single there) back,
    fun early => apart ((named 0 rfl).mpr early)⟩

end CrossPlan.Plan
