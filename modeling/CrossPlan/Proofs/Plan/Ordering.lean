import CrossPlan.Proofs.Plan.Validity
import CrossPlan.Proofs.Precedence.Counting

/-!
# Which plans have an order, and which are valid

The order of a plan is the one list of its operators in which each stands behind the operators that
feed it and is the least that can stand at its place.  There is one exactly where the edges form no
directed cycle.  It comes out as well when the edges into each operator are counted and the counts
taken down.  A plan is valid exactly when it has operators, no cycle, one edge into every input,
those that broadcast included, and an edge out of every output.
-/

set_option autoImplicit false

namespace CrossPlan.Plan

open Precedence

variable {plan : Plan}

structure Ready (plan : Plan) (before : List Nat) (id : Nat) : Prop where
  known : id < plan.size
  fresh : id ∉ before
  fed : ∀ edge ∈ plan.edges, edge.target.operator = id → edge.source.operator ∈ before

/-- Each operator is listed once, behind those that feed it, and the least that is ready each time.
-/
structure Arranged (plan : Plan) (order : List Nat) : Prop where
  whole : order.Perm (List.range plan.size)
  forward : ∀ edge ∈ plan.edges,
    order.idxOf edge.source.operator < order.idxOf edge.target.operator
  least : ∀ before id after, order = before ++ id :: after →
    IsLeast {other | plan.Ready before other} id

structure Valid (plan : Plan) : Prop where
  nonempty : plan.operators ≠ []
  acyclic : Acyclic plan.precedence
  fed : ∀ input, plan.HasInput input → (plan.edges.map (·.target)).count input = 1
  read : ∀ output, plan.HasOutput output → ∃ input, ⟨output, input⟩ ∈ plan.edges

/-- The order by counting: operators are taken, the least first, once all edges into them are
counted down.  Where some are left over the least of them is named; and there is no answer at all
if a count were to fall below zero. -/
def orderByCounts? (plan : Plan) : Option (Except PlanError (List Nat)) :=
  let ids := List.range plan.size
  (Tally.pass? List.min? ids plan.precedence).map fun tally =>
    if tally.taken.length = plan.size then .ok tally.taken
    else .error (.cycle ((ids.filter fun id => 0 < tally.missing id).min?.getD 0))

/-! ## The order -/

theorem mem_precedence {earlier later : Nat} : (earlier, later) ∈ plan.precedence ↔
    ∃ edge ∈ plan.edges, edge.source.operator = earlier ∧ edge.target.operator = later := by
  simp [precedence]

theorem free_iff {before : List Nat} {id : Nat} :
    Free (List.range plan.size) plan.precedence before id ↔ plan.Ready before id := by
  have prepared : (∀ pair ∈ plan.precedence, pair.2 = id → pair.1 ∈ before) ↔
      ∀ edge ∈ plan.edges, edge.target.operator = id → edge.source.operator ∈ before :=
    List.forall_mem_map
  constructor
  · intro free
    exact ⟨List.mem_range.mp free.known, free.fresh, prepared.mp free.prepared⟩
  · intro ready
    exact ⟨List.mem_range.mpr ready.known, ready.fresh, prepared.mpr ready.fed⟩

theorem order_perm {order : List Nat} (success : plan.order = .ok order) :
    order.Perm (List.range plan.size) := by
  have taken := taken_order success
  refine (List.perm_ext_iff_of_nodup taken.nodup List.nodup_range).mpr fun id => ?_
  rw [mem_order success, List.mem_range]

theorem order_eq_ok_iff {order : List Nat} : plan.order = .ok order ↔
    schedule (List.range plan.size) plan.precedence = order ∧
      order.Perm (List.range plan.size) := by
  constructor
  · intro success
    exact ⟨(order_ok success).1.symm, order_perm success⟩
  · rintro ⟨rfl, full⟩
    have complete := leftOut?_none.mpr fun id listed => full.mem_iff.mpr listed
    rw [Plan.order, complete]

theorem order_ok_iff (formed : plan.WellFormed) {order : List Nat} :
    plan.order = .ok order ↔ plan.Arranged order := by
  have ascending : (List.range plan.size).Pairwise (· < ·) := List.pairwise_lt_range
  have turns : ∀ before id, next? (List.range plan.size) plan.precedence before = some id ↔
      IsLeast {other | plan.Ready before other} id := by
    intro before id
    simp only [next?_eq_some_iff ascending, free_iff]
  constructor
  · intro success
    obtain ⟨scheduled, full⟩ := order_eq_ok_iff.mp success
    refine ⟨full, fun edge => edge_forward formed success, fun before id after split => ?_⟩
    exact (turns before id).mp ((schedule_eq_iff full).mp scheduled before id after split)
  · intro arranged
    refine order_eq_ok_iff.mpr ⟨(schedule_eq_iff arranged.whole).mpr ?_, arranged.whole⟩
    intro before id after split
    exact (turns before id).mpr (arranged.least before id after split)

theorem precedence_known (formed : plan.WellFormed) : ∀ pair ∈ plan.precedence,
    pair.1 ∈ List.range plan.size ∧ pair.2 ∈ List.range plan.size := by
  rintro ⟨earlier, later⟩ present
  obtain ⟨edge, listed, rfl, rfl⟩ := mem_precedence.mp present
  exact ⟨List.mem_range.mpr (formed.source_lt listed), List.mem_range.mpr (formed.target_lt listed)⟩

/-- The operators of a plan have an order exactly where the edges form no directed cycle. -/
theorem exists_order_iff (formed : plan.WellFormed) :
    (∃ order, plan.order = .ok order) ↔ Acyclic plan.precedence := by
  rw [← schedule_perm_iff List.nodup_range (precedence_known formed)]
  constructor
  · intro ⟨order, success⟩
    obtain ⟨rfl, full⟩ := order_eq_ok_iff.mp success
    exact full
  · intro full
    exact ⟨_, order_eq_ok_iff.mpr ⟨rfl, full⟩⟩

theorem order_congr {other : Plan} (size : other.size = plan.size)
    (edges : ∀ edge, edge ∈ other.edges ↔ edge ∈ plan.edges) : other.order = plan.order := by
  have pairs : ∀ pair, pair ∈ other.precedence ↔ pair ∈ plan.precedence := by
    rintro ⟨earlier, later⟩
    simp only [mem_precedence, edges]
  simp only [Plan.order, schedule, size, extend_congr pairs]

/-- The operators that the schedule leaves out are those on a cycle or behind one. -/
theorem left_out_iff (formed : plan.WellFormed) {id : Nat} :
    id ∈ List.range plan.size ∧ id ∉ schedule (List.range plan.size) plan.precedence ↔
      Blocked plan.precedence id := by
  rw [mem_schedule_iff fun pair present _ => (precedence_known formed pair present).1]
  constructor
  · rintro ⟨known, unlisted⟩
    by_contra free
    exact unlisted ⟨known, free⟩
  · intro blocked
    obtain ⟨earlier, present⟩ := blocked.exists_pair
    exact ⟨(precedence_known formed _ present).2, fun listed => listed.2 blocked⟩

theorem order_error_iff (formed : plan.WellFormed) {error : PlanError} :
    plan.order = .error error ↔
      ∃ id, error = .cycle id ∧ IsLeast {other | Blocked plan.precedence other} id := by
  have named : ∀ id, leftOut? (List.range plan.size)
      (schedule (List.range plan.size) plan.precedence) = some id ↔
        IsLeast {other | Blocked plan.precedence other} id := by
    intro id
    simp only [leftOut?_eq_some_iff List.pairwise_lt_range, left_out_iff formed]
  constructor
  · intro failed
    rw [Plan.order] at failed
    cases found : leftOut? (List.range plan.size)
        (schedule (List.range plan.size) plan.precedence) with
    | none => simp [found] at failed
    | some id =>
      simp only [found] at failed
      cases failed
      exact ⟨id, rfl, (named id).mp found⟩
  · rintro ⟨id, rfl, least⟩
    simp only [Plan.order, (named id).mpr least]

/-- Counting comes to the same order or to the same error, and no count falls below zero. -/
theorem orderByCounts?_eq (formed : plan.WellFormed) :
    plan.orderByCounts? = some plan.order := by
  have ascending : (List.range plan.size).Pairwise (· < ·) := List.pairwise_lt_range
  obtain ⟨tally, success, counted, taken⟩ :=
    exists_pass?_min? ascending fun pair present => (precedence_known formed pair present).2
  have stuck : next? (List.range plan.size) plan.precedence tally.taken = none := by
    rw [taken]
    exact next?_schedule
  have open_iff : ∀ id, id ∈ (List.range plan.size).filter (fun id => 0 < tally.missing id) ↔
      Blocked plan.precedence id := by
    intro id
    rw [List.mem_filter, decide_eq_true_iff, ← left_out_iff formed, ← taken]
    exact and_congr_right (counted.missing_pos_iff stuck)
  simp only [orderByCounts?, success, Option.map_some, Option.some.injEq]
  cases outcome : plan.order with
  | ok order =>
    obtain ⟨scheduled, full⟩ := order_eq_ok_iff.mp outcome
    have same : tally.taken = order := taken.trans scheduled
    rw [same, if_pos (by simpa using full.length_eq)]
  | error error =>
    obtain ⟨id, rfl, least⟩ := (order_error_iff formed).mp outcome
    have short : tally.taken.length ≠ plan.size := by
      intro full
      have all := counted.taken.perm_of_full (by rw [full, List.length_range])
      obtain ⟨known, unlisted⟩ := (left_out_iff formed).mpr least.1
      exact unlisted (taken ▸ all.mem_iff.mpr known)
    have named : ((List.range plan.size).filter fun id => 0 < tally.missing id).min? = some id :=
      List.min?_eq_some_iff.mpr ⟨(open_iff id).mpr least.1, fun other listed =>
        least.2 ((open_iff other).mp listed)⟩
    rw [if_neg short, named, Option.getD_some]

/-! ## Validity -/

theorem validate_iff (formed : plan.WellFormed) : plan.validate = .ok () ↔ plan.Valid := by
  rw [validate_ok_iff formed, exists_order_iff formed]
  constructor
  · rintro ⟨nonempty, acyclic, connected⟩
    refine ⟨nonempty, acyclic, fun input present => ?_, connected.read⟩
    obtain ⟨output, edge⟩ := connected.fed input present
    exact List.count_eq_one_of_mem formed.single (List.mem_map.mpr ⟨_, edge, rfl⟩)
  · intro valid
    refine ⟨valid.nonempty, valid.acyclic, fun input present => ?_, valid.read⟩
    have listed : input ∈ plan.edges.map (·.target) :=
      List.count_pos_iff.mp (by rw [valid.fed input present]; exact Nat.one_pos)
    obtain ⟨⟨output, _⟩, edge, rfl⟩ := List.mem_map.mp listed
    exact ⟨output, edge⟩

/-- However a plan was put together, its order is the one arrangement of its operators, there is one
exactly where no edges form a directed cycle, and it is the same however the edges are listed and
when edges are counted; and the plan is accepted exactly if it is valid. -/
theorem order_validate_iff (built : plan.Built) :
    (∀ order, plan.order = .ok order ↔ plan.Arranged order) ∧
    ((∃ order, plan.order = .ok order) ↔ Acyclic plan.precedence) ∧
    (∀ other : Plan, other.size = plan.size →
      (∀ edge, edge ∈ other.edges ↔ edge ∈ plan.edges) → other.order = plan.order) ∧
    plan.orderByCounts? = some plan.order ∧
    (plan.validate = .ok () ↔ plan.Valid) := by
  have formed := built.wellFormed
  exact ⟨fun _ => order_ok_iff formed, exists_order_iff formed,
    fun _ size edges => order_congr size edges, orderByCounts?_eq formed, validate_iff formed⟩

def doubled : Plan :=
  { operators :=
      [.create 0 "out" (.sink "memory://rows"), .create 1 "both" .union,
        .create 2 "named" (.map "a AS b"), .create 3 "rows" (.collectionSource [])]
    edges := [⟨⟨2, 0⟩, ⟨1, 1⟩⟩, ⟨⟨1, 0⟩, ⟨0, 0⟩⟩, ⟨⟨3, 0⟩, ⟨2, 0⟩⟩, ⟨⟨2, 0⟩, ⟨1, 0⟩⟩] }

theorem built_doubled : doubled.Built := by
  have operators := (((Plan.Built.empty.add "out" (.sink "memory://rows")).add "both" .union).add
    "named" (.map "a AS b")).add "rows" (.collectionSource [])
  exact (((operators.connect ⟨2, 0⟩ ⟨1, 1⟩ rfl).connect ⟨1, 0⟩ ⟨0, 0⟩ rfl).connect
    ⟨3, 0⟩ ⟨2, 0⟩ rfl).connect ⟨2, 0⟩ ⟨1, 0⟩ rfl

/-- The plan is valid, and its operators are ordered against their numbers. -/
theorem order_validate_iff_doubled : doubled.Arranged [3, 2, 1, 0] ∧
    Acyclic doubled.precedence ∧ doubled.orderByCounts? = some (.ok [3, 2, 1, 0]) ∧
      doubled.Valid := by
  have ordered : doubled.order = .ok [3, 2, 1, 0] := rfl
  obtain ⟨arranged, acyclic, -, counted, valid⟩ := order_validate_iff built_doubled
  exact ⟨(arranged _).mp ordered, acyclic.mp ⟨_, ordered⟩, counted.trans (congrArg some ordered),
    valid.mp rfl⟩

end CrossPlan.Plan
