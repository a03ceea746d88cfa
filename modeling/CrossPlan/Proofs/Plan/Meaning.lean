import CrossPlan.Bound.Builtin
import CrossPlan.Proofs.Plan.Validity

/-!
# What a plan computes

The rows of an operator are made of the rows of the operators that feed it, one operator after the
other and without regard to platforms.  What a sink receives is a result under its name.
-/

set_option autoImplicit false

namespace CrossPlan

namespace Operator

def offered (operator : Operator) (inputs : List (List Record)) : Memberships :=
  fun broadcast column =>
    match operator.broadcasts.find? fun entry => entry.2 == broadcast with
    | some (slot, _) => broadcastMembers column (inputs.getD slot [])
    | none => []

/-- The rows that an operator makes of the rows on its inputs; a sink keeps what it receives. -/
def meaning (operator : Operator) (lines : String → List Record) (inputs : List (List Record)) :
    List Record :=
  match operator.action with
  | .collectionSource rows => rows
  | .textSource url => lines url
  | .filter text =>
    match Predicate.read text with
    | .ok predicate =>
      (inputs.headD []).filter fun row => predicate.eval row (operator.offered inputs)
    | .error _ => []
  | .map text => (inputs.headD []).map (Record.rename (parseRenames text))
  | .project columns => (inputs.headD []).map (Record.project columns)
  | .union => inputs.flatten
  | .sink _ => inputs.headD []

def resultName? (operator : Operator) : Option String :=
  match operator.action with
  | .sink text =>
    match Destination.read text with
    | .ok (.memory name) => some name
    | _ => none
  | _ => none

end Operator

namespace Plan

def inputRows (plan : Plan) (rows : Nat → List Record) (operator : Operator) :
    List (List Record) :=
  (List.range operator.inputs.length).map fun slot =>
    match plan.producerOf? ⟨operator.id, slot⟩ with
    | some output => rows output.operator
    | none => []

def evaluate (plan : Plan) (lines : String → List Record) :
    List Nat → (Nat → List Record) → Nat → List Record
  | [], rows => rows
  | id :: rest, rows =>
    match plan.operators[id]? with
    | some operator => plan.evaluate lines rest
        (Function.update rows id (operator.meaning lines (plan.inputRows rows operator)))
    | none => plan.evaluate lines rest rows

def rows (plan : Plan) (lines : String → List Record) : Nat → List Record :=
  match plan.order with
  | .ok order => plan.evaluate lines order fun _ => []
  | .error _ => fun _ => []

/-- The rows that reach the sinks of a name, one sink after the other. -/
def result (plan : Plan) (lines : String → List Record) (name : String) : List Record :=
  plan.operators.flatMap fun operator =>
    if operator.resultName? = some name then plan.rows lines operator.id else []

variable {plan : Plan} {lines : String → List Record}

theorem evaluate_append (before after : List Nat) (rows : Nat → List Record) :
    plan.evaluate lines (before ++ after) rows =
      plan.evaluate lines after (plan.evaluate lines before rows) := by
  induction before generalizing rows with
  | nil => rfl
  | cons id rest ih =>
    rw [List.cons_append, evaluate, evaluate]
    cases plan.operators[id]? with
    | none => exact ih rows
    | some operator => exact ih _

theorem evaluate_of_notMem {ids : List Nat} {rows : Nat → List Record} {id : Nat}
    (other : id ∉ ids) : plan.evaluate lines ids rows id = rows id := by
  induction ids generalizing rows with
  | nil => rfl
  | cons first rest ih =>
    have later := fun listed => other (List.mem_cons_of_mem first listed)
    rw [evaluate]
    cases plan.operators[first]? with
    | none => exact ih later
    | some operator =>
      have different : id ≠ first := fun same => other (same ▸ List.mem_cons_self)
      dsimp only
      rw [ih later, Function.update_of_ne different]

theorem inputRows_congr {operator : Operator} {rows rows' : Nat → List Record}
    (same : ∀ slot output, plan.producerOf? ⟨operator.id, slot⟩ = some output →
      rows output.operator = rows' output.operator) :
    plan.inputRows rows operator = plan.inputRows rows' operator := by
  refine List.map_congr_left fun slot _ => ?_
  cases found : plan.producerOf? ⟨operator.id, slot⟩ with
  | none => rfl
  | some output => exact same slot output found

/-- The rows of an operator are what it makes of the rows of the operators that feed it. -/
theorem rows_eq (formed : plan.WellFormed) {order : List Nat} (ordered : plan.order = .ok order)
    {id : Nat} {operator : Operator} (found : plan.operators[id]? = some operator) :
    plan.rows lines id = operator.meaning lines (plan.inputRows (plan.rows lines) operator) := by
  have taken := taken_order ordered
  have listed := (mem_order ordered).mpr (List.getElem?_eq_some_iff.mp found).1
  obtain ⟨before, after, rfl⟩ := List.append_of_mem listed
  have distinct := taken.nodup
  rw [List.nodup_append, List.nodup_cons] at distinct
  obtain ⟨-, ⟨notAfter, -⟩, apart⟩ := distinct
  have numbered := formed.numbered id operator found
  have rows : plan.rows lines = plan.evaluate lines (before ++ id :: after) fun _ => [] := by
    unfold Plan.rows
    rw [ordered]
  rw [rows, evaluate_append, evaluate, found]
  dsimp only
  rw [evaluate_of_notMem notAfter, Function.update_self]
  congr 1
  refine inputRows_congr fun slot output producer => ?_
  -- what feeds the operator stands before it, so that nothing behind changes its rows
  have edge := mem_of_producerOf? producer
  have earlier : output.operator ∈ before := by
    refine taken.respects before id after rfl _ (List.mem_map.mpr ⟨_, edge, rfl⟩) ?_
    exact numbered
  have different : output.operator ≠ id := fun same =>
    apart _ earlier _ List.mem_cons_self same
  have notLater : output.operator ∉ after := fun later =>
    apart _ earlier _ (List.mem_cons_of_mem _ later) rfl
  rw [evaluate_of_notMem notLater, Function.update_of_ne different]

end Plan

end CrossPlan
