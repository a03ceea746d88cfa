import CrossPlan.Proofs.Bound.Evaluation
import CrossPlan.Proofs.Pattern.Boundary
import CrossPlan.Proofs.Rule.Builtin

/-!
# Built-in candidates do what the plan says

A built-in candidate stands for one operator of a plan, or for a filter and the projection behind
it.  It makes the rows that leave its outputs, as the plan means them, of the rows that arrive at
its inputs.
-/

set_option autoImplicit false

namespace CrossPlan

open Sequence

variable {α : Type} {plan : Plan} {lines : String → List Record}

/-! ## Rows at the slots of a plan -/

namespace Plan

def arriving (plan : Plan) (lines : String → List Record) (input : SlotRef) : List Record :=
  match plan.producerOf? input with
  | some output => plan.rows lines output.operator
  | none => []

def written? (plan : Plan) (lines : String → List Record) (id : Nat) :
    Option (String × List Record) :=
  plan.operators[id]?.bind fun operator =>
    operator.resultName?.map fun name => (name, plan.rows lines id)

/-- All operators can be bound, only filters look up broadcasts, and sinks keep their rows in
memory. -/
structure Bindable (plan : Plan) : Prop where
  bound : ∀ operator ∈ plan.operators, ∃ action, operator.bound = .ok action
  broadcasts : ∀ operator ∈ plan.operators, operator.hasBroadcasts = true →
    operator.kind = .filter
  sinks : ∀ operator ∈ plan.operators, operator.kind = .sink → operator.resultName?.isSome = true

def Reads (plan : Plan) (workspace : Workspace) (lines : String → List Record) : Prop :=
  ∀ operator ∈ plan.operators, ∀ url, operator.action = .textSource url →
    BoundAction.readLines workspace url = .ok (lines url)

theorem Reads.congr {workspace base : Workspace} (reads : plan.Reads base lines)
    (files : workspace.files = base.files) (remote : workspace.remote = base.remote) :
    plan.Reads workspace lines := by
  intro operator listed url same
  have found := reads operator listed url same
  unfold BoundAction.readLines Workspace.readText at found ⊢
  rw [files, remote]
  exact found

theorem arriving_target (formed : plan.WellFormed) {edge : Edge} (present : edge ∈ plan.edges) :
    plan.arriving lines edge.target = plan.rows lines edge.source.operator := by
  rw [arriving, formed.producerOf?_iff.mpr present]

end Plan

/-! ## Matches of the built-in patterns -/

namespace SubplanMatch

def alone (operator : Operator) : SubplanMatch :=
  { nodes := [operator.id]
    inputs := (List.range operator.inputs.length).map (SlotRef.mk operator.id)
    outputs := (List.range operator.outputs.length).map (SlotRef.mk operator.id) }

def chained (first second : Operator) : SubplanMatch :=
  ⟨[first.id, second.id], [⟨first.id, 0⟩], [⟨second.id, 0⟩]⟩

end SubplanMatch

theorem Plan.rows_alone (formed : plan.WellFormed) {order : List Nat}
    (ordered : plan.order = .ok order) {operator : Operator}
    (known : plan.operators[operator.id]? = some operator) :
    plan.rows lines operator.id = operator.meaning lines
      ((SubplanMatch.alone operator).inputs.map (plan.arriving lines)) := by
  rw [rows_eq formed ordered known, SubplanMatch.alone, List.map_map]
  rfl

theorem Operator.Slotted.range_inputs {operator : Operator} (slotted : operator.Slotted) :
    List.range operator.kind.inputs ++ operator.broadcasts.map (·.1) =
      List.range operator.inputs.length := by
  have flagged : ∀ entry ∈ operator.inputs.zipIdx,
      entry.1.broadcast = decide (operator.kind.inputs ≤ entry.2) := by
    intro entry listed
    rw [Bool.eq_iff_iff, decide_eq_true_iff]
    exact slotted.broadcast _ _ (List.mem_zipIdx_iff_getElem?.mp listed)
  have places : operator.broadcasts.map (·.1) =
      (List.range operator.inputs.length).filter (operator.kind.inputs ≤ ·) := by
    rw [broadcasts, List.map_map, List.filter_congr flagged, List.range_eq_range',
      ← List.zipIdx_map_snd 0 operator.inputs, List.filter_map]
    rfl
  obtain ⟨more, count⟩ := Nat.exists_eq_add_of_le slotted.inputs
  rw [places, count, List.range_add, List.filter_append, List.filter_eq_nil_iff.mpr,
    List.filter_eq_self.mpr, List.nil_append]
  · intro place listed
    obtain ⟨further, -, rfl⟩ := List.mem_map.mp listed
    exact decide_eq_true (Nat.le_add_right _ _)
  · intro place listed
    rw [decide_eq_true_iff]
    exact Nat.not_le_of_lt (List.mem_range.mp listed)

theorem broadcastInputs_eq_nil {operator : Operator}
    (known : plan.operators[operator.id]? = some operator)
    (plain : operator.hasBroadcasts = false) : Pattern.broadcastInputs plan operator.id = [] := by
  have none : operator.broadcasts = [] := by
    rw [Operator.broadcasts, List.map_eq_nil_iff, List.filter_eq_nil_iff]
    intro entry listed flagged
    rw [Operator.hasBroadcasts, List.any_eq_false] at plain
    exact plain entry.1 (List.fst_mem_of_mem_zipIdx listed) flagged
  rw [Pattern.broadcastInputs, known]
  dsimp only
  rw [none, List.map_nil]

theorem alone_of_mem {node : OperatorPattern} {found : SubplanMatch} (formed : plan.WellFormed)
    (listed : found ∈ (Pattern.singleton node).findMatches plan) :
    ∃ operator, plan.operators[operator.id]? = some operator ∧ operator.kind = node.kind ∧
      found = .alone operator := by
  obtain ⟨image, embeds, rfl⟩ :=
    (Pattern.mem_findMatches (Pattern.accepted_singleton _).registered formed).mp listed
  have first : (Pattern.singleton node).nodes[0]? = some node := rfl
  obtain ⟨operator, known, same, -⟩ := embeds.operator_at first
  have id := formed.numbered _ _ known
  rw [← id] at known
  have slotted := formed.slotted_of_getElem? known
  refine ⟨operator, known, same, ?_⟩
  have inputs : (Pattern.slotsOf node.kind.inputs).map (SlotRef.under image) ++
      Pattern.broadcastInputs plan operator.id =
        (List.range operator.inputs.length).map (SlotRef.mk operator.id) := by
    rw [← slotted.range_inputs, List.map_append, List.map_map, Pattern.broadcastInputs, known,
      Pattern.slotsOf, List.map_map, ← same, id]
    rfl
  have outputs : (Pattern.slotsOf node.kind.outputs).map (SlotRef.under image) =
      (List.range operator.outputs.length).map (SlotRef.mk operator.id) := by
    rw [slotted.outputs, Pattern.slotsOf, List.map_map, ← same, id]
    rfl
  rw [SubplanMatch.alone, ← inputs, ← outputs, id]
  simp [Pattern.occurrence, Pattern.images, Pattern.singleton]

theorem chained_of_mem {found : SubplanMatch} (formed : plan.WellFormed)
    (listed : found ∈ filterProjectPattern.findMatches plan) :
    ∃ filter project, plan.operators[filter.id]? = some filter ∧
      plan.operators[project.id]? = some project ∧ filter.kind = .filter ∧
      project.kind = .project ∧ filter.hasBroadcasts = false ∧ project.hasBroadcasts = false ∧
      filter.id ≠ project.id ∧ (⟨⟨filter.id, 0⟩, ⟨project.id, 0⟩⟩ : Edge) ∈ plan.edges ∧
      found = .chained filter project := by
  obtain ⟨image, embeds, rfl⟩ :=
    (Pattern.mem_findMatches accepted_filterProject.registered formed).mp listed
  have first : filterProjectPattern.nodes[0]? = some (.ofKind .filter) := rfl
  have second : filterProjectPattern.nodes[1]? = some (.ofKind .project) := rfl
  obtain ⟨filter, known, kind, plain⟩ := embeds.operator_at first
  obtain ⟨project, known', kind', plain'⟩ := embeds.operator_at second
  have id := formed.numbered _ _ known
  have id' := formed.numbered _ _ known'
  have apart : image 0 ≠ image 1 := by
    intro same
    cases embeds.injective 0 1 (by decide) (by decide) same
  have edge := embeds.realized ⟨⟨0, 0⟩, ⟨1, 0⟩⟩ List.mem_cons_self
  rw [← id] at known
  rw [← id'] at known'
  rw [← id, ← id'] at apart
  refine ⟨filter, project, known, known', kind, kind', plain rfl, plain' rfl, apart, ?_, ?_⟩
  · rw [id, id']
    exact edge
  · have none := broadcastInputs_eq_nil known (plain rfl)
    have none' := broadcastInputs_eq_nil known' (plain' rfl)
    rw [id] at none
    rw [id'] at none'
    simp [Pattern.occurrence, Pattern.images, filterProjectPattern, SubplanMatch.chained, none,
      none', id, id', SlotRef.under, List.range_succ]

/-! ## Built-in candidates -/

inductive Candidate.Builtin (plan : Plan) (candidate : Candidate α) : Prop where
  | one (operator : Operator) (action : BoundAction) (platform : Platform) (epoch : Nat)
      (known : plan.operators[operator.id]? = some operator)
      (bound : operator.bound = .ok action) (matched : candidate.matched = .alone operator)
      (made : candidate.replacement =
        .single (action.toOperator operator.name platform epoch))
  | fused (filter project : Operator) (text : String) (columns : List String)
      (predicate : Predicate) (name : String) (platform : Platform) (epoch : Nat)
      (known : plan.operators[filter.id]? = some filter)
      (known' : plan.operators[project.id]? = some project)
      (filtered : filter.action = .filter text) (projected : project.action = .project columns)
      (parsed : Predicate.read text = .ok predicate) (alone : predicate.broadcasts = [])
      (plain : filter.hasBroadcasts = false) (plain' : project.hasBroadcasts = false)
      (edge : (⟨⟨filter.id, 0⟩, ⟨project.id, 0⟩⟩ : Edge) ∈ plan.edges)
      (matched : candidate.matched = .chained filter project)
      (made : candidate.replacement =
        .single ((BoundAction.filterProject predicate columns).toOperator name platform epoch))

theorem Candidate.Derived.builtin {candidate : Candidate α} {epoch : Nat} {rule : Rule α}
    {operators : List Operator} (derived : candidate.Derived .builtin plan epoch rule operators)
    (formed : plan.WellFormed) : candidate.Builtin plan := by
  have listed := List.mem_of_getElem? derived.registered
  have found := derived.found
  have made := derived.made
  have bound := derived.bound
  rcases mem_builtinRules.mp listed with ⟨platform, kind, rfl⟩ | rfl
  · obtain ⟨operator, known, -, same⟩ := alone_of_mem formed found
    obtain ⟨operator', action, rfl, -, success, made⟩ := kindRule_ok made
    rw [same, SubplanMatch.alone] at bound
    obtain ⟨here, -⟩ := List.forall₂_cons.mp bound
    obtain rfl := Option.some.inj (known.symm.trans here)
    exact .one operator action platform epoch known success same made
  · obtain ⟨filter, project, known, known', -, -, plain, plain', -, edge, same⟩ :=
      chained_of_mem formed found
    obtain ⟨first, second, text, columns, predicate, rfl, filtered, projected, parsed, alone,
      made⟩ := fuse_ok made
    rw [same, SubplanMatch.chained] at bound
    obtain ⟨here, rest⟩ := List.forall₂_cons.mp bound
    obtain ⟨here', -⟩ := List.forall₂_cons.mp rest
    obtain rfl := Option.some.inj (known.symm.trans here)
    obtain rfl := Option.some.inj (known'.symm.trans here')
    exact .fused filter project text columns predicate _ _ epoch known known' filtered projected
      parsed alone plain plain' edge same made

/-! ## Every match has a candidate -/

theorem Rule.replace_single {rule : Rule α} {operators : List Operator} {epoch inputs outputs : Nat}
    {operator : BoundOperator α} (made : rule.factory operators epoch = .ok (.single operator))
    (taking : operator.inputs = inputs) (giving : operator.outputs = outputs) :
    rule.replace operators inputs outputs epoch = .ok (.single operator) := by
  subst taking giving
  have slots : ∀ count, (Pattern.slotsOf count).length = count := by
    intro count
    rw [Pattern.slotsOf, List.length_map, List.length_range]
  have inputs : (Replacement.single operator).inputs.length = operator.inputs := slots _
  have outputs : (Replacement.single operator).outputs.length = operator.outputs := slots _
  have forward : (Replacement.single operator).isForward = true := by
    simp [Replacement.isForward, Replacement.single, Pattern.slotsOf]
  simp only [replace, made, Except.mapError]
  refine bind_ok_iff.mpr ⟨_, rfl, ?_⟩
  simp only [inputs, outputs, forward, ne_eq, not_true_eq_false, if_false, Bool.not_true,
    Bool.false_eq_true]
  rfl

theorem kindRule_made {platform : Platform} {operator : Operator} {action : BoundAction}
    (bound : operator.bound = .ok action) (epoch : Nat) :
    (kindRule platform operator.kind : Rule α).factory [operator] epoch =
      .ok (.single (action.toOperator operator.name platform epoch)) := by
  simp only [kindRule, ReplacementFactory.ofSingle, if_pos, Operator.bind, bound]
  rfl

theorem fuse_made {filter project : Operator} (kind : filter.kind = .filter)
    (kind' : project.kind = .project) (plain : filter.hasBroadcasts = false)
    {action : BoundAction} (bound : filter.bound = .ok action) (epoch : Nat) :
    ∃ operator, (filterProjectRule : Rule α).factory [filter, project] epoch =
      .ok (.single operator) ∧ operator.inputs = 1 ∧ operator.outputs = 1 := by
  obtain ⟨text, same⟩ : ∃ text, filter.action = .filter text := by
    cases same : filter.action <;> rw [Operator.kind, same] at kind <;> cases kind
    exact ⟨_, rfl⟩
  obtain ⟨columns, same'⟩ : ∃ columns, project.action = .project columns := by
    cases same' : project.action <;> rw [Operator.kind, same'] at kind' <;> cases kind'
    exact ⟨_, rfl⟩
  obtain ⟨predicate, slots, parsed, served, -⟩ := Operator.bound_filter same bound
  have alone : predicate.broadcasts = [] := by
    rw [List.eq_nil_iff_forall_not_mem]
    intro name asked
    obtain ⟨slot, -, found⟩ := Operator.broadcastSlots_ok served asked
    have declared := Operator.mem_broadcasts.mp (List.mem_of_find?_eq_some found)
    rw [Operator.hasBroadcasts, List.any_eq_false] at plain
    exact plain _ (List.mem_of_getElem? declared) rfl
  have fused : fusedAction text columns = .ok (.filterProject predicate columns) := by
    refine bind_ok_iff.mpr ⟨predicate, parsed, ?_⟩
    rw [alone]
    rfl
  refine ⟨(BoundAction.filterProject predicate columns).toOperator
    (filter.name ++ "+" ++ project.name) .distributed epoch, ?_, rfl, rfl⟩
  simp only [filterProjectRule, fuse, same, same', fused]

/-- The built-in rules make a candidate of each of their matches in a plan whose operators can be
bound. -/
theorem builtin_candidates_isOk [Quantity α] (formed : plan.WellFormed)
    (bindable : ∀ operator ∈ plan.operators, ∃ action, operator.bound = .ok action)
    (broadcasts : ∀ operator ∈ plan.operators, operator.hasBroadcasts = true →
      operator.kind = .filter)
    (estimator : Estimator α) (weights : CostWeights α) (known : PlanStatistics) (epoch : Nat) :
    ∃ candidates,
      RuleRegistry.builtin.candidates estimator weights plan known epoch = .ok candidates := by
  have one : ∀ rule ∈ (builtinRules : List (Rule α)), ∀ found ∈ rule.pattern.findMatches plan,
      ∃ operators replacement, found.nodes.mapM plan.get = .ok operators ∧
        rule.replace operators found.inputs.length found.outputs.length epoch =
          .ok replacement := by
    intro rule listed found here
    rcases mem_builtinRules.mp listed with ⟨platform, kind, rfl⟩ | rfl
    · obtain ⟨operator, present, rfl, rfl⟩ := alone_of_mem formed here
      have member := List.mem_of_getElem? present
      obtain ⟨action, bound⟩ := bindable operator member
      obtain ⟨inputs, outputs⟩ := Operator.arity_of_bound (formed.slotted operator member)
        (broadcasts operator member) bound
      refine ⟨[operator], _, ?_, Rule.replace_single (kindRule_made bound epoch) ?_ ?_⟩
      · exact mapM_ok_iff.mpr (.cons (Plan.get_ok.mpr present) .nil)
      · rw [SubplanMatch.alone, List.length_map, List.length_range]
        exact inputs
      · rw [SubplanMatch.alone, List.length_map, List.length_range]
        exact outputs
    · obtain ⟨filter, project, present, present', kind, kind', plain, -, -, -, rfl⟩ :=
        chained_of_mem formed here
      obtain ⟨action, bound⟩ := bindable filter (List.mem_of_getElem? present)
      obtain ⟨operator, made, inputs, outputs⟩ := fuse_made kind kind' plain bound epoch
      refine ⟨[filter, project], _, ?_, Rule.replace_single made inputs outputs⟩
      exact mapM_ok_iff.mpr
        (.cons (Plan.get_ok.mpr present) (.cons (Plan.get_ok.mpr present') .nil))
  have each : ∀ entry ∈ (builtinRules : List (Rule α)).zipIdx,
      ∀ found ∈ entry.1.pattern.findMatches plan, ∃ candidate,
        RuleRegistry.candidate estimator weights plan known epoch entry.2 entry.1 found =
          .ok candidate := by
    intro entry listed found here
    obtain ⟨operators, replacement, bound, made⟩ :=
      one entry.1 (List.fst_mem_of_mem_zipIdx listed) found here
    exact ⟨_, bind_ok_iff.mpr ⟨operators, mapError_ok_iff.mpr bound,
      bind_ok_iff.mpr ⟨replacement, made, rfl⟩⟩⟩
  exact exists_bind (exists_mapM_ok fun entry listed => exists_mapM_ok (each entry listed))
    fun _ _ => ⟨_, rfl⟩

theorem builtin_candidates_ok [Quantity α] (formed : plan.WellFormed) (bindable : plan.Bindable)
    (estimator : Estimator α) (weights : CostWeights α) (known : PlanStatistics) (epoch : Nat) :
    ∃ candidates,
      RuleRegistry.builtin.candidates estimator weights plan known epoch = .ok candidates :=
  builtin_candidates_isOk formed bindable.bound bindable.broadcasts estimator weights known epoch

/-! ## What candidates do -/

/-- A candidate with one operator, which does what the operators that it covers do. -/
structure Candidate.Performs (plan : Plan) (lines : String → List Record) (candidate : Candidate α)
    (action : BoundAction) : Prop where
  made : ∃ name platform epoch,
    candidate.replacement = .single (action.toOperator name platform epoch)
  supplied : action.Supplied
  inputs : candidate.matched.inputs.length = action.inputs
  outputs : candidate.matched.outputs.length = action.outputs
  rows : ∀ output ∈ candidate.matched.outputs, plan.rows lines output.operator =
    action.meaning lines (candidate.matched.inputs.map (plan.arriving lines))
  addresses : ∀ url, action = .textSource url →
    ∃ operator ∈ plan.operators, operator.action = .textSource url
  written : (action.outputs ≠ 0 ∧ ∀ id ∈ candidate.matched.nodes, plan.written? lines id = none) ∨
    ∃ name id, action = .sink (.memory name) ∧ candidate.matched.nodes = [id] ∧
      plan.written? lines id =
        some (name, action.meaning lines (candidate.matched.inputs.map (plan.arriving lines)))
  forward : ∀ input ∈ candidate.matched.inputs, ∀ output ∈ candidate.matched.outputs,
    input.operator = output.operator ∨ ∃ edge ∈ plan.edges,
      edge.source.operator = input.operator ∧ edge.target.operator = output.operator

theorem Operator.resultName?_eq_none {operator : Operator} (other : operator.kind ≠ .sink) :
    operator.resultName? = none := by
  unfold resultName?
  split
  · next same => exact absurd (by rw [kind, same]; rfl) other
  · rfl

theorem Operator.outputs_ne_zero {operator : Operator} (slotted : operator.Slotted)
    (other : operator.kind ≠ .sink) : operator.outputs.length ≠ 0 := by
  rw [slotted.outputs]
  cases same : operator.kind with
  | sink => exact absurd same other
  | _ => exact Nat.one_ne_zero

theorem Operator.bound_of_resultName? {operator : Operator} {action : BoundAction} {name : String}
    (result : operator.resultName? = some name) (bound : operator.bound = .ok action) :
    action = .sink (.memory name) := by
  unfold resultName? at result
  split at result
  · next text same =>
    obtain ⟨destination, parsed, rfl⟩ := bound_sink same bound
    rw [parsed] at result
    split at result
    · next name' here =>
      cases here
      cases result
      rfl
    · cases result
  · cases result

theorem Operator.textSource_of_bound {operator : Operator} {url : String}
    (bound : operator.bound = .ok (.textSource url)) : operator.action = .textSource url := by
  cases same : operator.action with
  | filter text =>
    obtain ⟨_, _, -, -, other⟩ := bound_filter same bound
    cases other
  | sink text =>
    obtain ⟨_, -, other⟩ := bound_sink same bound
    cases other
  | _ =>
    unfold Operator.bound at bound
    rw [same] at bound
    cases bound
    try rfl

theorem SubplanMatch.alone_inputs {operator : Operator} (one : operator.inputs.length = 1) :
    (alone operator).inputs = [⟨operator.id, 0⟩] := by
  rw [alone, one]
  rfl

theorem Plan.written?_of_other {operator : Operator}
    (known : plan.operators[operator.id]? = some operator) (other : operator.kind ≠ .sink) :
    plan.written? lines operator.id = none := by
  rw [written?, known, Option.bind_some, operator.resultName?_eq_none other, Option.map_none]

namespace Candidate

variable {candidate : Candidate α} {order : List Nat}

theorem performs_alone (formed : plan.WellFormed) (ordered : plan.order = .ok order)
    (bindable : plan.Bindable) {operator : Operator} {action : BoundAction}
    (known : plan.operators[operator.id]? = some operator) (bound : operator.bound = .ok action)
    (matched : candidate.matched = .alone operator)
    (made : ∃ name platform epoch,
      candidate.replacement = .single (action.toOperator name platform epoch)) :
    candidate.Performs plan lines action := by
  have listed := List.mem_of_getElem? known
  have slotted := formed.slotted operator listed
  obtain ⟨inputs, outputs⟩ :=
    Operator.arity_of_bound slotted (bindable.broadcasts operator listed) bound
  have rows : plan.rows lines operator.id =
      action.meaning lines (candidate.matched.inputs.map (plan.arriving lines)) := by
    rw [Plan.rows_alone formed ordered known, matched, Operator.meaning_of_bound bound]
  refine ⟨made, Operator.supplied_of_bound slotted bound, ?_, ?_, ?_, ?_, ?_, ?_⟩
  · rw [matched, SubplanMatch.alone, List.length_map, List.length_range, inputs]
  · rw [matched, SubplanMatch.alone, List.length_map, List.length_range, outputs]
  · intro output here
    rw [matched] at here
    obtain ⟨_, -, rfl⟩ := List.mem_map.mp here
    exact rows
  · rintro url rfl
    exact ⟨operator, listed, Operator.textSource_of_bound bound⟩
  · rw [outputs]
    by_cases sink : operator.kind = .sink
    · obtain ⟨name, result⟩ := Option.isSome_iff_exists.mp (bindable.sinks operator listed sink)
      refine Or.inr ⟨name, operator.id, Operator.bound_of_resultName? result bound, ?_, ?_⟩
      · rw [matched]
        rfl
      · rw [Plan.written?, known, Option.bind_some, result, Option.map_some, rows]
    · refine Or.inl ⟨Operator.outputs_ne_zero slotted sink, fun id among => ?_⟩
      rw [matched] at among
      rw [List.mem_singleton.mp among]
      exact Plan.written?_of_other known sink
  · intro input here output here'
    rw [matched] at here here'
    obtain ⟨_, -, rfl⟩ := List.mem_map.mp here
    obtain ⟨_, -, rfl⟩ := List.mem_map.mp here'
    exact Or.inl rfl

theorem performs_chained (formed : plan.WellFormed) (ordered : plan.order = .ok order)
    {filter project : Operator} {text : String} {columns : List String} {predicate : Predicate}
    (known : plan.operators[filter.id]? = some filter)
    (known' : plan.operators[project.id]? = some project)
    (filtered : filter.action = .filter text) (projected : project.action = .project columns)
    (parsed : Predicate.read text = .ok predicate) (alone : predicate.broadcasts = [])
    (plain : filter.hasBroadcasts = false) (plain' : project.hasBroadcasts = false)
    (edge : (⟨⟨filter.id, 0⟩, ⟨project.id, 0⟩⟩ : Edge) ∈ plan.edges)
    (matched : candidate.matched = .chained filter project)
    (made : ∃ name platform epoch, candidate.replacement =
      .single ((BoundAction.filterProject predicate columns).toOperator name platform epoch)) :
    candidate.Performs plan lines (.filterProject predicate columns) := by
  have single : filter.inputs.length = 1 := by
    rw [Operator.length_inputs (formed.slotted_of_getElem? known) plain, Operator.kind, filtered]
    rfl
  have single' : project.inputs.length = 1 := by
    rw [Operator.length_inputs (formed.slotted_of_getElem? known') plain', Operator.kind,
      projected]
    rfl
  have rows : plan.rows lines filter.id = _ := Plan.rows_alone formed ordered known
  have rows' : plan.rows lines project.id = _ := Plan.rows_alone formed ordered known'
  rw [SubplanMatch.alone_inputs single, List.map_singleton] at rows
  rw [SubplanMatch.alone_inputs single', List.map_singleton, Plan.arriving_target formed edge,
    rows] at rows'
  refine ⟨made, trivial, by rw [matched]; rfl, by rw [matched]; rfl, ?_, ?_,
    Or.inl ⟨Nat.one_ne_zero, ?_⟩, ?_⟩
  · intro output here
    rw [matched] at here ⊢
    rw [List.mem_singleton.mp here, SubplanMatch.chained, List.map_singleton,
      meaning_filterProject filtered projected parsed alone]
    exact rows'
  · intro url same
    cases same
  · intro id among
    rw [matched] at among
    rcases List.mem_pair.mp among with rfl | rfl
    · refine Plan.written?_of_other known ?_
      rw [Operator.kind, filtered]
      exact Kind.noConfusion
    · refine Plan.written?_of_other known' ?_
      rw [Operator.kind, projected]
      exact Kind.noConfusion
  · intro input here output here'
    rw [matched] at here here'
    rw [List.mem_singleton.mp here, List.mem_singleton.mp here']
    exact Or.inr ⟨_, edge, rfl, rfl⟩

/-- Built-in candidates do what the operators that they cover do. -/
theorem Builtin.performs (builtin : candidate.Builtin plan) (formed : plan.WellFormed)
    (ordered : plan.order = .ok order) (bindable : plan.Bindable)
    (lines : String → List Record) : ∃ action, candidate.Performs plan lines action := by
  cases builtin with
  | one operator action platform epoch known bound matched made =>
    exact ⟨action, performs_alone formed ordered bindable known bound matched ⟨_, _, _, made⟩⟩
  | fused filter project text columns predicate name platform epoch known known' filtered projected
      parsed alone plain plain' edge matched made =>
    exact ⟨_, performs_chained formed ordered known known' filtered projected parsed alone plain
      plain' edge matched ⟨_, _, _, made⟩⟩

end Candidate

end CrossPlan
