import CrossPlan.Proofs.Rule.Soundness
import CrossPlan.Proofs.Selection.Greedy
import CrossPlan.Proofs.Selection.Wiring

/-!
# Built-in candidates cover a plan

Each operator whose texts can be read has a candidate of its own.  Rows can leave and enter all
built-in candidates in some form, so that no choice among them rules out the rest.
-/

set_option autoImplicit false

namespace CrossPlan

open Sequence

variable {α : Type} {plan : Plan}

/-! ## Operators that can be bound -/

namespace Plan

/-- Only filters have broadcasts, the predicates of filters can be read and look up declared
broadcasts only, and the destinations of sinks can be read. -/
structure Readable (plan : Plan) : Prop where
  broadcasts : ∀ operator ∈ plan.operators, operator.hasBroadcasts = true →
    operator.kind = .filter
  filters : ∀ operator ∈ plan.operators, ∀ text, operator.action = .filter text →
    ∃ predicate, Predicate.read text = .ok predicate ∧
      ∀ name ∈ predicate.broadcasts, ∃ slot, (slot, name) ∈ operator.broadcasts
  sinks : ∀ operator ∈ plan.operators, ∀ text, operator.action = .sink text →
    ∃ destination, Destination.read text = .ok destination

theorem Readable.bound (readable : plan.Readable) :
    ∀ operator ∈ plan.operators, ∃ action, operator.bound = .ok action := by
  intro operator listed
  unfold Operator.bound
  cases same : operator.action with
  | filter text =>
    obtain ⟨predicate, parsed, declared⟩ := readable.filters operator listed text same
    have served : ∃ slots, broadcastSlots operator predicate = .ok slots := by
      refine exists_mapM_ok fun name asked => ?_
      obtain ⟨slot, among⟩ := declared name asked
      cases found : operator.broadcasts.find? fun broadcast => broadcast.2 == name with
      | none => exact absurd (beq_self_eq_true name) (List.find?_eq_none.mp found _ among)
      | some broadcast => exact ⟨(name, broadcast.1), rfl⟩
    exact exists_bind ⟨predicate, parsed⟩ fun predicate' parsed' => by
      obtain rfl := Except.ok.inj (parsed.symm.trans parsed')
      exact exists_bind served fun _ _ => ⟨_, rfl⟩
  | sink text =>
    obtain ⟨destination, parsed⟩ := readable.sinks operator listed text same
    exact exists_bind ⟨destination, parsed⟩ fun _ _ => ⟨_, rfl⟩
  | _ => exact ⟨_, rfl⟩

theorem Bindable.readable (bindable : plan.Bindable) : plan.Readable := by
  refine ⟨bindable.broadcasts, ?_, ?_⟩
  · intro operator listed text same
    obtain ⟨action, bound⟩ := bindable.bound operator listed
    obtain ⟨predicate, slots, parsed, served, -⟩ := Operator.bound_filter same bound
    refine ⟨predicate, parsed, fun name asked => ?_⟩
    obtain ⟨slot, -, found⟩ := Operator.broadcastSlots_ok served asked
    exact ⟨slot, List.mem_of_find?_eq_some found⟩
  · intro operator listed text same
    obtain ⟨action, bound⟩ := bindable.bound operator listed
    obtain ⟨destination, parsed, -⟩ := Operator.bound_sink same bound
    exact ⟨destination, parsed⟩

end Plan

/-! ## A candidate for each operator -/

theorem RuleRegistry.exists_of_found [Quantity α] {registry : RuleRegistry α}
    {estimator : Estimator α} {weights : CostWeights α} {known : PlanStatistics} {epoch : Nat}
    {candidates : List (Candidate α)}
    (success : registry.candidates estimator weights plan known epoch = .ok candidates)
    {rule : Rule α} (listed : rule ∈ registry.rules) {found : SubplanMatch}
    (here : found ∈ rule.pattern.findMatches plan) :
    ∃ candidate ∈ candidates, candidate.matched = found := by
  obtain ⟨made, matched, success⟩ := bind_ok_iff.mp success
  cases success
  obtain ⟨place, known⟩ := List.mem_iff_getElem?.mp listed
  obtain ⟨all, among, inner⟩ := mem_left (mapM_ok_iff.mp matched)
    (List.mem_zipIdx_iff_getElem?.mpr known : (rule, place) ∈ registry.rules.zipIdx)
  obtain ⟨candidate, present, one⟩ := mem_left (mapM_ok_iff.mp inner) here
  obtain ⟨-, -, rfl, -⟩ := candidate_ok one
  have sorted : candidate ∈ made.flatten.mergeSort fun a b => Candidate.order a b != .gt :=
    List.mem_mergeSort.mpr (List.mem_flatten.mpr ⟨all, among, present⟩)
  obtain ⟨place', known'⟩ := List.mem_iff_getElem?.mp sorted
  exact ⟨{ candidate with id := place' }, List.mem_map.mpr
    ⟨(candidate, place'), List.mem_zipIdx_iff_getElem?.mpr known', rfl⟩, rfl⟩

/-- A node matches every operator that it asks for, as no operator of an ordered plan reads its own
output. -/
theorem exists_alone (formed : plan.WellFormed) {order : List Nat}
    (ordered : plan.order = .ok order) {node : OperatorPattern} {id : Nat} {operator : Operator}
    (known : plan.operators[id]? = some operator) (fits : node.fits operator = true) :
    ∃ found ∈ (Pattern.singleton node).findMatches plan, found.covered = [id] := by
  have embeds : (Pattern.singleton node).Embeds plan fun _ => id := by
    refine ⟨?_, ?_, by simp [Pattern.singleton], ?_, by simp [Pattern.singleton]⟩
    · intro a b first second _
      exact (Nat.lt_one_iff.mp first).trans (Nat.lt_one_iff.mp second).symm
    · intro place asked present
      cases place with
      | zero =>
        cases present
        exact ⟨operator, known, fits⟩
      | succ place => cases present
    · rintro edge present ⟨_, -, source⟩ ⟨_, -, target⟩
      have forward := Plan.edge_forward formed ordered present
      rw [← source, ← target] at forward
      exact absurd forward (Nat.lt_irrefl _)
  refine ⟨_, (Pattern.mem_findMatches (Pattern.accepted_singleton _).registered formed).mpr
    ⟨_, embeds, rfl⟩, ?_⟩
  have covered : ((Pattern.singleton node).occurrence plan fun _ => id).covered.Perm
      ((Pattern.singleton node).images fun _ => id) := Pattern.Embeds.covered_perm
  exact List.perm_singleton.mp covered

/-- Each operator is covered alone by a candidate. -/
theorem exists_single [Quantity α] {estimator : Estimator α} {weights : CostWeights α}
    {known : PlanStatistics} {epoch : Nat} {candidates : List (Candidate α)}
    (formed : plan.WellFormed) (readable : plan.Readable) {order : List Nat}
    (ordered : plan.order = .ok order)
    (success : RuleRegistry.builtin.candidates estimator weights plan known epoch = .ok candidates)
    {id : Nat} (within : id < plan.size) :
    ∃ candidate ∈ candidates, candidate.covered = [id] := by
  have here := List.getElem?_eq_getElem within
  generalize plan.operators[id] = operator at here
  have plain := readable.broadcasts operator (List.mem_of_getElem? here)
  have fits : ({ OperatorPattern.ofKind operator.kind with
      allowsBroadcasts := operator.kind == .filter } : OperatorPattern).fits operator = true := by
    cases flagged : operator.hasBroadcasts with
    | false => simp [OperatorPattern.fits, OperatorPattern.ofKind, flagged]
    | true => simp [OperatorPattern.fits, OperatorPattern.ofKind, plain flagged]
  obtain ⟨found, listed, covered⟩ := exists_alone formed ordered here fits
  have rule : kindRule .inProcess operator.kind ∈ (RuleRegistry.builtin : RuleRegistry α).rules :=
    mem_builtinRules.mpr (Or.inl ⟨.inProcess, operator.kind, rfl⟩)
  obtain ⟨candidate, present, rfl⟩ := RuleRegistry.exists_of_found success rule listed
  exact ⟨candidate, present, covered⟩

/-! ## Open boundaries -/

namespace BoundAction

theorem outputForms_ne_nil {action : BoundAction} (giving : action.outputs ≠ 0)
    (platform : Platform) : action.outputForms platform ≠ [] := by
  cases action <;> cases platform <;>
    first | exact List.cons_ne_nil _ _ | exact absurd rfl giving

theorem accepted_ne_nil {action : BoundAction} (taking : action.inputs ≠ 0)
    (platform : Platform) (broadcast : Bool) :
    acceptedOn (action.inputForms platform) broadcast ≠ [] := by
  cases action <;> cases platform <;> cases broadcast <;>
    first | exact List.cons_ne_nil _ _ | exact absurd rfl taking

end BoundAction

namespace Candidate.Builtin

variable {candidate : Candidate α}

theorem single (builtin : candidate.Builtin plan) : ∃ action name platform epoch,
    candidate.replacement = .single (BoundAction.toOperator action name platform epoch) := by
  cases builtin with
  | one operator action platform epoch _ _ _ made => exact ⟨action, _, platform, epoch, made⟩
  | fused _ _ _ columns predicate name platform epoch _ _ _ _ _ _ _ _ _ _ made =>
    exact ⟨.filterProject predicate columns, name, platform, epoch, made⟩

theorem forward (builtin : candidate.Builtin plan) (formed : plan.WellFormed) {order : List Nat}
    (ordered : plan.order = .ok order) {input output : SlotRef}
    (entering : input ∈ candidate.matched.inputs) (leaving : output ∈ candidate.matched.outputs) :
    order.idxOf input.operator ≤ order.idxOf output.operator := by
  cases builtin with
  | one operator action platform epoch _ _ matched _ =>
    rw [matched] at entering leaving
    obtain ⟨_, -, rfl⟩ := List.mem_map.mp entering
    obtain ⟨_, -, rfl⟩ := List.mem_map.mp leaving
    exact Nat.le_refl _
  | fused filter project _ _ _ _ _ _ _ _ _ _ _ _ _ _ edge matched _ =>
    rw [matched] at entering leaving
    rw [List.mem_singleton.mp entering, List.mem_singleton.mp leaving]
    exact Nat.le_of_lt (Plan.edge_forward formed ordered edge)

end Candidate.Builtin

theorem RuleRegistry.builtin_of_mem [Quantity α] {estimator : Estimator α}
    {weights : CostWeights α} {known : PlanStatistics} {epoch : Nat}
    {candidates : List (Candidate α)} (formed : plan.WellFormed)
    (success : RuleRegistry.builtin.candidates estimator weights plan known epoch = .ok candidates)
    {candidate : Candidate α} (present : candidate ∈ candidates) : candidate.Builtin plan := by
  obtain ⟨rule, operators, derived⟩ := derived_of_mem success present
  exact derived.builtin formed

namespace Problem

variable {problem : Problem α} {chosen : Nat} {candidate : Candidate α}

theorem leaves_of_builtin (present : problem.candidates[chosen]? = some candidate)
    (builtin : candidate.Builtin problem.plan) (joined : candidate.Joined problem.plan)
    {output : SlotRef} (listed : output ∈ candidate.matched.outputs) :
    ∃ slot operator, problem.outputSlot? chosen output = some (slot, operator) ∧
      operator.outputForms slot.slot.slot ≠ [] := by
  obtain ⟨action, name, platform, epoch, made⟩ := builtin.single
  obtain ⟨inner, _, known, place, here, there⟩ : ∃ inner, problem.Gives ⟨chosen, inner⟩ output :=
    exists_beside present joined.outputs listed
  obtain rfl := Option.some.inj (present.symm.trans known)
  refine ⟨⟨chosen, inner⟩, action.toOperator name platform epoch,
    (outputSlot?_iff present joined.distinctOutputs).mpr ⟨rfl, ⟨place, here, there⟩, ?_⟩,
    BoundAction.outputForms_ne_nil ?_ platform⟩
  · rw [made] at there ⊢
    obtain rfl := Replacement.getElem?_slotsOf there
    rfl
  · intro none
    rw [made, Replacement.single] at there
    change (Pattern.slotsOf action.outputs)[place]? = some inner at there
    rw [none] at there
    cases there

theorem enters_of_builtin (present : problem.candidates[chosen]? = some candidate)
    (builtin : candidate.Builtin problem.plan) (joined : candidate.Joined problem.plan)
    {input : SlotRef} (listed : input ∈ candidate.matched.inputs) (broadcast : Bool) :
    ∃ slot operator, problem.inputSlot? chosen input = some (slot, operator) ∧
      acceptedOn (operator.inputForms slot.slot.slot) broadcast ≠ [] := by
  obtain ⟨action, name, platform, epoch, made⟩ := builtin.single
  obtain ⟨inner, _, known, place, here, there⟩ : ∃ inner, problem.Takes ⟨chosen, inner⟩ input :=
    exists_beside present joined.inputs listed
  obtain rfl := Option.some.inj (present.symm.trans known)
  refine ⟨⟨chosen, inner⟩, action.toOperator name platform epoch,
    (inputSlot?_iff present joined.distinctInputs).mpr ⟨rfl, ⟨place, here, there⟩, ?_⟩,
    BoundAction.accepted_ne_nil ?_ platform broadcast⟩
  · rw [made] at there ⊢
    obtain rfl := Replacement.getElem?_slotsOf there
    rfl
  · intro none
    rw [made, Replacement.single] at there
    change (Pattern.slotsOf action.inputs)[place]? = some inner at there
    rw [none] at there
    cases there

variable [Quantity α] {estimator sizing : Estimator α} {weights : CostWeights α}
  {known statistics : PlanStatistics} {epoch : Nat} {candidates : List (Candidate α)}
  {config : OptimizerConfig α}

/-- No choice among built-in candidates rules out the rest. -/
theorem lenient_of_builtin (built : plan.Built) (readable : plan.Readable)
    (matched : RuleRegistry.builtin.candidates estimator weights plan known epoch = .ok candidates)
    (created : create plan candidates sizing statistics config = .ok problem) :
    problem.Lenient := by
  have formed := built.wellFormed
  have prepared := prepared_of_create accepted_builtin built matched created
  have joined := RuleRegistry.joined_of_mem accepted_builtin formed matched
  have builtin : ∀ candidate ∈ candidates, candidate.Builtin plan :=
    fun _ => RuleRegistry.builtin_of_mem formed matched
  obtain ⟨rfl, rfl, -, ordered, -, groups, -⟩ := create_ok created
  have edges : ∀ group ∈ problem.groups, ∀ input ∈ group.consumers,
      (⟨group.producer, input⟩ : Edge) ∈ problem.plan.edges := by
    intro group grouped input listed
    rw [groups, mem_groupsOf fun _ => Plan.mem_order ordered] at grouped
    rw [grouped.2] at listed
    exact Plan.mem_consumersOf.mp listed
  refine ⟨?_, ?_, ?_⟩
  · intro candidate present id covered
    have within := (Plan.mem_order ordered).mp (prepared.within candidate present id covered)
    exact exists_single formed readable ordered matched within
  · intro group grouped input listed chosen candidate present covered outside
    have among := List.mem_of_getElem? present
    refine leaves_of_builtin present (builtin candidate among) (joined candidate among) ?_
    exact ((joined candidate among).readOutside _ (edges group grouped input listed) covered).mpr
      outside
  · intro group grouped input listed chosen candidate present covered outside
    have among := List.mem_of_getElem? present
    refine enters_of_builtin present (builtin candidate among) (joined candidate among) ?_ _
    exact ((joined candidate among).fedOutside _ (edges group grouped input listed) covered).mpr
      outside

theorem uncovered_eq_nil (formed : plan.WellFormed) (readable : plan.Readable)
    (matched : RuleRegistry.builtin.candidates estimator weights plan known epoch = .ok candidates)
    (created : create plan candidates sizing statistics config = .ok problem) :
    problem.uncovered = [] := by
  obtain ⟨rfl, rfl, -, ordered, covering, -⟩ := create_ok created
  refine List.filterMap_eq_nil_iff.mpr fun entry listed => ?_
  obtain ⟨place, within, rfl⟩ := List.mem_iff_getElem.mp listed
  have here : place < problem.order.length :=
    Nat.lt_of_lt_of_le within (List.length_zip ▸ Nat.min_le_left _ _)
  obtain ⟨candidate, present, covered⟩ := exists_single formed readable ordered matched
    ((Plan.mem_order ordered).mp (List.getElem_mem here))
  obtain ⟨number, known⟩ := List.mem_iff_getElem?.mp present
  have tried : number ∈ coveringOf problem.candidates problem.order[place] :=
    Prepared.mem_coveringOf.mpr ⟨candidate, known, covered ▸ List.mem_singleton_self _⟩
  have some : (coveringOf problem.candidates problem.order[place]).isEmpty = false :=
    List.isEmpty_eq_false_iff.mpr (List.ne_nil_of_mem tried)
  simp [covering, some]

/-- A plan that can be read is solved, whichever way its candidates are searched. -/
theorem solve_of_builtin (built : plan.Built) (readable : plan.Readable)
    (matched : RuleRegistry.builtin.candidates estimator weights plan known epoch = .ok candidates)
    (created : create plan candidates sizing statistics config = .ok problem) :
    ∃ solution, problem.solve = .ok solution := by
  have lenient := lenient_of_builtin built readable matched created
  have covered := uncovered_eq_nil built.wellFormed readable matched created
  have ordered := ordered_of_create created
  obtain ⟨rfl, -, -, -, -, groups, -⟩ := create_ok created
  exact lenient.solve_isOk ordered built.wellFormed groups covered

end Problem

end CrossPlan
