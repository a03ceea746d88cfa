import CrossPlan.Proofs.Compilation
import CrossPlan.Proofs.Quantity
import CrossPlan.Proofs.Selection.Completeness

/-!
# What is built is what was scored

The execution plan of a solution has one connection for each edge of the plan between two chosen
candidates, at the slots that stand for the ends of the edge, and one for each link of a chosen
replacement; there are no others.  The score counts those between platforms, and its cost is that of
the chosen candidates and of all connections.

Nothing is asked of the candidates here; they need not come from rules.
-/

set_option autoImplicit false

namespace CrossPlan.Problem

open Sequence

variable {α : Type} [Quantity α] {problem : Problem α}

/-! ## The chosen candidates -/

structure Branch.Tallied (branch : Branch α) : Prop where
  distinct : branch.chosen.Nodup
  held : ∀ candidate, candidate ∈ branch.chosen ↔
    ∃ place : Nat, branch.assigned.getD place none = some candidate

theorem Branch.Tallied.start :
    Branch.Tallied (⟨problem.unassigned, [], [], Quantity.zero⟩ : Branch α) where
  distinct := List.nodup_nil
  held := fun candidate => ⟨fun listed => absurd listed List.not_mem_nil,
    fun ⟨place, held⟩ => ((Fills.unassigned.holds place candidate).mp held).1⟩

theorem Branch.Tallied.after {branch : Branch α} (tallied : branch.Tallied)
    (ordered : problem.Ordered) {place candidate : Nat} {rest : List Nat}
    (reached : problem.Reached (place :: rest) branch) (covers : problem.Covers candidate place)
    {placement : Placement α} (placed : problem.placement? branch candidate = some placement)
    (cost : α) : (branch.after placement cost).Tallied := by
  obtain ⟨_, places, assigned, -, step, rfl⟩ := placement?_iff.mp placed
  obtain ⟨covered, free, -⟩ := place?_iff.mp step
  obtain ⟨-, keeps, value⟩ := reached.whole.place step
  have among : place ∈ places := (ordered.mem_placesOf? covered).mpr covers
  -- had it been placed, it would stand at this place, which is free
  have fresh : candidate ∉ branch.chosen := by
    intro old
    obtain ⟨other, held⟩ := (tallied.held candidate).mp old
    obtain ⟨places', covered', -, all⟩ := reached.whole.holds other candidate held
    obtain rfl := Option.some.inj (covered.symm.trans covered')
    have taken := all place among
    rw [free place among] at taken
    cases taken
  refine ⟨List.nodup_append.mpr ⟨tallied.distinct, List.nodup_singleton _, ?_⟩, fun other => ?_⟩
  · rintro _ old _ new rfl
    rw [List.mem_singleton.mp new] at old
    exact fresh old
  · rw [Branch.after, List.mem_append, List.mem_singleton, tallied.held]
    constructor
    · rintro (⟨earlier, held⟩ | rfl)
      · exact ⟨earlier, keeps earlier other held⟩
      · exact ⟨place, by rw [value, if_pos among]⟩
    · rintro ⟨here, held⟩
      rw [value] at held
      split at held
      · exact Or.inr (Option.some.inj held).symm
      · exact Or.inl ⟨here, held⟩

theorem Ordered.advances (ordered : problem.Ordered) : problem.Advances fun ahead branch =>
    problem.Reached ahead branch ∧ branch.Tallied where
  skip := fun _ _ _ ⟨reached, tallied⟩ taken => ⟨reached.skip taken, tallied⟩
  after := fun _ _ _ _ _ cost ⟨reached, tallied⟩ tried placed =>
    have covers := ordered.mem_covering.mp tried
    ⟨reached.extend ordered covers placed cost, tallied.after ordered reached covers placed cost⟩

omit [Quantity α] in
theorem Whole.chosen?_iff {assigned : Assignment} (whole : problem.Whole assigned)
    {id candidate : Nat} : problem.chosen? assigned id = some candidate ↔
      (∃ place : Nat, assigned.getD place none = some candidate) ∧ problem.Stands candidate id := by
  constructor
  · intro here
    obtain ⟨found, known, covered, -⟩ := whole.covered_of_chosen? here
    obtain ⟨place, -, held⟩ := Option.bind_eq_some_iff.mp here
    exact ⟨⟨place, held⟩, found, known, covered⟩
  · rintro ⟨⟨place, held⟩, found, known, covered⟩
    obtain ⟨places, located, -, all⟩ := whole.holds place candidate held
    obtain ⟨found', known', each⟩ := placesOf?_some located
    obtain rfl := Option.some.inj (known.symm.trans known')
    obtain ⟨place', among, index⟩ := mem_left each covered
    exact Option.bind_eq_some_iff.mpr ⟨place', index, all place' among⟩

/-- A selection with the candidate that it has at each place and the score of these. -/
structure Decided (problem : Problem α) (full : List Nat) (solution : Solution α) : Prop where
  ordered : problem.Ordered
  formed : problem.plan.WellFormed
  groups : problem.groups = groupsOf problem.plan problem.order
  costs : problem.conversionCosts.length = problem.groups.length
  complete : problem.assignment? solution.selection = some full
  distinct : solution.selection.Nodup
  listed : ∀ candidate, candidate ∈ full ↔ candidate ∈ solution.selection
  scored : problem.scoreOf full = .ok solution.score

theorem decided_of_solve {plan : Plan} {candidates : List (Candidate α)} {estimator : Estimator α}
    {known : PlanStatistics} {config : OptimizerConfig α} (built : plan.Built)
    (created : create plan candidates estimator known config = .ok problem) {solution : Solution α}
    (solved : problem.solve = .ok solution) : ∃ full, problem.Decided full solution := by
  have ordered := ordered_of_create created
  obtain ⟨rfl, -, -, -, -, groups, -, costs, -⟩ := create_ok created
  obtain ⟨branch, ⟨reached, tallied⟩, same, scored⟩ :=
    ordered.advances.solve ⟨.start, .start⟩ solved
  have complete : problem.assignment? solution.selection =
      some (branch.assigned.filterMap id) := by
    rw [assignment?_iff, same, reached.placed, ← reached.complete]
  refine ⟨_, ordered, built.wellFormed, groups, costs, complete, same ▸ tallied.distinct, ?_,
    scored⟩
  intro candidate
  rw [same, tallied.held, reached.complete]
  simp only [getD_map_some, List.mem_iff_getElem?]
  rw [← reached.complete]

namespace Decided

variable {full : List Nat} {solution : Solution α}

theorem whole (decided : problem.Decided full solution) : problem.Whole (full.map some) :=
  .of_assignment? decided.complete

theorem chosen?_iff (decided : problem.Decided full solution) {id candidate : Nat} :
    problem.chosen? (full.map some) id = some candidate ↔
      candidate ∈ solution.selection ∧ problem.Stands candidate id := by
  rw [decided.whole.chosen?_iff, ← decided.listed, List.mem_iff_getElem?]
  simp only [getD_map_some]

theorem existsUnique_stands (decided : problem.Decided full solution) {id : Nat}
    (known : id < problem.plan.size) :
    ∃! candidate, candidate ∈ solution.selection ∧ problem.Stands candidate id := by
  have length := decided.whole.length
  rw [List.length_map] at length
  have filled : ∀ place < problem.order.length,
      ((full.map some).getD place none).isSome = true := by
    intro place within
    rw [getD_map_some, List.getElem?_eq_getElem (length ▸ within), Option.isSome_some]
  obtain ⟨candidate, here⟩ :=
    Option.isSome_iff_exists.mp (decided.ordered.chosen?_isSome filled known)
  refine ⟨candidate, decided.chosen?_iff.mp here, fun other both => ?_⟩
  exact Option.some.inj ((decided.chosen?_iff.mpr both).symm.trans here)

theorem known (decided : problem.Decided full solution) {candidate : Nat}
    (listed : candidate ∈ full) : candidate < problem.candidates.length := by
  obtain ⟨place, held⟩ := List.mem_iff_getElem?.mp listed
  rw [← getD_map_some] at held
  exact (Prepared.covers_lt (decided.ordered.covers_of_holds decided.whole held)).1

theorem perm (decided : problem.Decided full solution) :
    full.eraseDups.Perm solution.selection :=
  (List.perm_ext_iff_of_nodup (nodup_eraseDups full) decided.distinct).mpr fun candidate => by
    rw [List.mem_eraseDups, decided.listed]

end Decided

/-! ## Edges and their connections -/

/-- An edge of the plan whose two operators are covered by different candidates of a selection. -/
def Crosses (problem : Problem α) (selection : List Nat) (edge : Edge) : Prop :=
  edge ∈ problem.plan.edges ∧ ∃ first ∈ selection, ∃ second ∈ selection, first ≠ second ∧
    problem.Stands first edge.source.operator ∧ problem.Stands second edge.target.operator

structure Ends (problem : Problem α) (selection : List Nat) (edge : Edge)
    (output input : CandidateSlot) : Prop where
  source : output.candidate ∈ selection ∧ problem.Stands output.candidate edge.source.operator
  target : input.candidate ∈ selection ∧ problem.Stands input.candidate edge.target.operator
  apart : output.candidate ≠ input.candidate
  gives : problem.Gives output edge.source
  takes : problem.Takes input edge.target

/-- A connection leads from the slot that stands for the source of an edge to the one that stands
for its target, and is marked where their operators are on different platforms. -/
def Joins (problem : Problem α) (selection : List Nat) (numbers : TaskNumbers) (edge : Edge)
    (connection : Junction α × JunctionTarget α) : Prop :=
  ∃ output input, problem.Ends selection edge output input ∧
    connection.1.producer = slotAt numbers output ∧
    connection.2.consumer = slotAt numbers input ∧
    ∃ source target, problem.operatorAt? output.candidate output.slot.operator = some source ∧
      problem.operatorAt? input.candidate input.slot.operator = some target ∧
      connection.2.crossPlatform = (target.platform != source.platform)

omit [Quantity α] in
theorem gives_of_outputSlot? {chosen : Nat} {output : SlotRef} {slot : CandidateSlot}
    {operator : BoundOperator α}
    (found : problem.outputSlot? chosen output = some (slot, operator)) :
    slot.candidate = chosen ∧ problem.Gives slot output ∧
      problem.operatorAt? slot.candidate slot.slot.operator = some operator := by
  simp only [outputSlot?, Option.bind_eq_bind, Option.bind_eq_some_iff, Option.pure_def,
    Option.some.injEq, Prod.mk.injEq] at found
  obtain ⟨candidate, known, place, index, inner, joined, _, here, rfl, rfl⟩ := found
  exact ⟨rfl, ⟨candidate, known, place, getElem?_of_idxOf? index, joined⟩,
    Option.bind_eq_some_iff.mpr ⟨candidate, known, here⟩⟩

omit [Quantity α] in
theorem takes_of_inputSlot? {chosen : Nat} {input : SlotRef} {slot : CandidateSlot}
    {operator : BoundOperator α}
    (found : problem.inputSlot? chosen input = some (slot, operator)) :
    slot.candidate = chosen ∧ problem.Takes slot input ∧
      problem.operatorAt? slot.candidate slot.slot.operator = some operator := by
  simp only [inputSlot?, Option.bind_eq_bind, Option.bind_eq_some_iff, Option.pure_def,
    Option.some.injEq, Prod.mk.injEq] at found
  obtain ⟨candidate, known, place, index, inner, joined, _, here, rfl, rfl⟩ := found
  exact ⟨rfl, ⟨candidate, known, place, getElem?_of_idxOf? index, joined⟩,
    Option.bind_eq_some_iff.mpr ⟨candidate, known, here⟩⟩

omit [Quantity α] in
theorem slotAt_of_taskSlot {numbers : TaskNumbers} {slot : CandidateSlot} {found : TaskSlot}
    (success : taskSlot numbers slot = .ok found) : found = slotAt numbers slot := by
  unfold taskSlot at success
  split at success
  · next start known =>
    cases success
    rw [slotAt, taskAt, known, Option.getD_some]
  · cases success

omit [Quantity α] in
/-- The junction of an output has a target for each consumer, at the cost of the route to it. -/
theorem targets_of_groupJunction {numbers : TaskNumbers} {outcome : GroupOutcome α}
    {junction : Junction α} (length : outcome.consumers.length = outcome.routes.routes.length)
    (success : groupJunction numbers outcome = .ok junction) :
    junction.producer = slotAt numbers outcome.producer ∧
      List.Forall₂ (fun consumer target => target.consumer = slotAt numbers consumer.1 ∧
        target.crossPlatform = consumer.2) outcome.consumers junction.targets ∧
      junction.targets.map (·.cost) = outcome.routes.routes.map (·.cost) := by
  obtain ⟨targets, made, success⟩ := bind_ok_iff.mp success
  obtain ⟨producer, start, success⟩ := bind_ok_iff.mp success
  cases success
  have each : List.Forall₂ (fun (entry : (CandidateSlot × Bool) × Route α)
      (target : JunctionTarget α) => target.consumer = slotAt numbers entry.1.1 ∧
        target.crossPlatform = entry.1.2 ∧ target.cost = entry.2.cost)
      (outcome.consumers.zip outcome.routes.routes) targets := by
    refine (mapM_ok_iff.mp made).imp ?_
    rintro ⟨⟨slot, cross⟩, route⟩ target found
    obtain ⟨consumer, reached, found⟩ := bind_ok_iff.mp found
    cases found
    exact ⟨slotAt_of_taskSlot reached, rfl, rfl⟩
  refine ⟨slotAt_of_taskSlot start, ?_, ?_⟩
  · rw [← List.map_fst_zip length.le, List.forall₂_map_left_iff]
    exact each.imp fun _ _ ⟨consumer, cross, _⟩ => ⟨consumer, cross⟩
  · rw [← List.map_snd_zip length.ge, List.map_map, ← List.forall₂_eq_eq_eq,
      List.forall₂_map_left_iff, List.forall₂_map_right_iff]
    exact List.Forall₂.flip (each.imp fun _ _ ⟨_, _, cost⟩ => cost)

/-! ## What is handed over -/

def Opens (numbers : TaskNumbers) (outcome : Option (GroupOutcome α))
    (junctions : List (Junction α)) : Prop :=
  match outcome with
  | some outcome => ∃ junction, groupJunction numbers outcome = .ok junction ∧
      junctions = [junction]
  | none => junctions = []

theorem opens_of_groupJunctions {numbers : TaskNumbers} {full : List Nat}
    {outcomes : List (Option (GroupOutcome α))} {junctions : List (Junction α)}
    (scored : (List.range problem.groups.length).mapM (problem.outcome (full.map some)) =
      .ok outcomes) (success : problem.groupJunctions numbers full = .ok junctions) :
    ∃ parts, junctions = parts.flatten ∧ List.Forall₂ (Opens numbers) outcomes parts := by
  obtain ⟨parts, made, success⟩ := bind_ok_iff.mp success
  cases success
  refine ⟨parts, rfl, ?_⟩
  refine (forall₂_trans (List.Forall₂.flip (mapM_ok_iff.mp scored)) (mapM_ok_iff.mp made)).imp ?_
  rintro outcome part ⟨place, once, again⟩
  -- the outcome is computed a second time, from the same assignment
  obtain ⟨outcome', same, again⟩ := bind_ok_iff.mp again
  obtain rfl := Except.ok.inj (once.symm.trans (mapError_ok_iff.mp same))
  cases outcome with
  | none =>
    cases again
    rfl
  | some outcome =>
    obtain ⟨junction, made, again⟩ := bind_ok_iff.mp again
    cases again
    exact ⟨junction, made, rfl⟩

/-- The edges that leave the candidates of some groups, each with a connection, and what these
connections count and cost. -/
structure Accounts (problem : Problem α) (selection : List Nat) (numbers : TaskNumbers)
    (groups : List OutputGroup) (outcomes : List (Option (GroupOutcome α))) (edges : List Edge)
    (junctions : List (Junction α)) : Prop where
  distinct : edges.Nodup
  listed : ∀ edge, edge ∈ edges ↔
    edge.source ∈ groups.map (·.producer) ∧ problem.Crosses selection edge
  joins : List.Forall₂ (problem.Joins selection numbers) edges (TaskGraph.connections junctions)
  crossing : Count.total (outcomes.map crossLinks) =
    (TaskGraph.connections junctions).countP fun connection => connection.2.crossPlatform
  cost : Quantity.Exact α → Quantity.sum (outcomes.map outcomeCost) =
    Quantity.sum ((TaskGraph.connections junctions).map fun connection => connection.2.cost)

namespace Accounts

variable {selection : List Nat} {numbers : TaskNumbers} {groups others : List OutputGroup}
  {outcomes outcomes' : List (Option (GroupOutcome α))} {edges edges' : List Edge}
  {junctions junctions' : List (Junction α)}

theorem nil : problem.Accounts selection numbers [] [] [] [] where
  distinct := List.nodup_nil
  listed := by simp
  joins := .nil
  crossing := rfl
  cost := fun _ => rfl

theorem append (first : problem.Accounts selection numbers groups outcomes edges junctions)
    (second : problem.Accounts selection numbers others outcomes' edges' junctions')
    (apart : ((groups ++ others).map (·.producer)).Nodup) :
    problem.Accounts selection numbers (groups ++ others) (outcomes ++ outcomes')
      (edges ++ edges') (junctions ++ junctions') where
  distinct := by
    rw [List.map_append, List.nodup_append] at apart
    refine List.nodup_append.mpr ⟨first.distinct, second.distinct, ?_⟩
    rintro edge here _ there rfl
    exact apart.2.2 _ ((first.listed edge).mp here).1 _ ((second.listed edge).mp there).1 rfl
  listed := fun edge => by
    rw [List.mem_append, first.listed, second.listed, List.map_append, List.mem_append,
      or_and_right]
  joins := by
    rw [TaskGraph.connections_append]
    exact List.rel_append first.joins second.joins
  crossing := by
    rw [List.map_append, total_append, first.crossing, second.crossing,
      TaskGraph.connections_append, List.countP_append]
  cost := fun exact => by
    rw [List.map_append, exact.sum_append, first.cost exact, second.cost exact,
      TaskGraph.connections_append, List.map_append, exact.sum_append]

end Accounts

namespace Decided

variable {full : List Nat} {solution : Solution α} {numbers : TaskNumbers} {group : OutputGroup}
  {producer : Nat} {outside : List (SlotRef × Nat)}

theorem mem_outside (decided : problem.Decided full solution)
    (consumers : group.consumers = problem.plan.consumersOf group.producer)
    (chosen : problem.chosen? (full.map some) group.producer.operator = some producer)
    (read : problem.outsideConsumers (full.map some) group producer = .ok outside) (edge : Edge) :
    edge ∈ outside.map (fun entry => Edge.mk group.producer entry.1) ↔
      edge.source ∈ [group].map (·.producer) ∧ problem.Crosses solution.selection edge := by
  obtain ⟨among, entries, all⟩ := outsideConsumers_ok read
  obtain ⟨listed, stands⟩ := decided.chosen?_iff.mp chosen
  rw [List.mem_map, List.map_singleton, List.mem_singleton]
  constructor
  · rintro ⟨entry, present, rfl⟩
    obtain ⟨here, apart⟩ := entries entry present
    obtain ⟨listed', stands'⟩ := decided.chosen?_iff.mp here
    have known := among.subset (List.mem_map_of_mem present)
    rw [consumers, Plan.mem_consumersOf] at known
    exact ⟨rfl, known, producer, listed, entry.2, listed', apart.symm, stands, stands'⟩
  · obtain ⟨source, target⟩ := edge
    rintro ⟨rfl, known, first, listed', second, listed'', apart, stands', stands''⟩
    obtain rfl := Option.some.inj
      ((decided.chosen?_iff.mpr ⟨listed', stands'⟩).symm.trans chosen)
    obtain ⟨candidate, held, other⟩ := all target (by rwa [consumers, Plan.mem_consumersOf])
    obtain rfl := Option.some.inj
      ((decided.chosen?_iff.mpr ⟨listed'', stands''⟩).symm.trans held)
    exact ⟨_, other apart.symm, rfl⟩

/-- What is handed over reaches the slots that stand for its readers. -/
theorem joins_of_handedOver (decided : problem.Decided full solution)
    (chosen : problem.chosen? (full.map some) group.producer.operator = some producer)
    (read : problem.outsideConsumers (full.map some) group producer = .ok outside)
    {outcome : GroupOutcome α} {source : BoundOperator α}
    {targets : List ((CandidateSlot × Bool) × List Form)}
    (handed : problem.HandedOver group producer outside outcome source targets)
    {junction : Junction α} (start : junction.producer = slotAt numbers outcome.producer)
    (reached : List.Forall₂ (fun consumer target => target.consumer = slotAt numbers consumer.1 ∧
      target.crossPlatform = consumer.2) outcome.consumers junction.targets) :
    List.Forall₂ (fun entry target => problem.Joins solution.selection numbers
      ⟨group.producer, entry.1⟩ (junction, target)) outside junction.targets := by
  obtain ⟨-, entries, -⟩ := outsideConsumers_ok read
  obtain ⟨rfl, gives, leaving⟩ := gives_of_outputSlot? handed.output
  rw [handed.consumers, List.forall₂_map_left_iff] at reached
  refine ((List.forall₂_and_left _ _).mpr
    ⟨entries, forall₂_trans handed.inputs reached⟩).imp ?_
  rintro entry target ⟨⟨here, apart⟩, ⟨⟨consumer, cross⟩, accepted⟩, ⟨operator, input, crossed, -⟩,
    arrives, marked⟩
  obtain ⟨same, takes, entering⟩ := takes_of_inputSlot? input
  have reader := decided.chosen?_iff.mp here
  rw [← same] at reader apart
  exact ⟨outcome.producer, consumer,
    ⟨decided.chosen?_iff.mp chosen, reader, apart.symm, gives, takes⟩, start, arrives, source,
    operator, leaving, entering, marked.trans crossed⟩

theorem accounts_group (decided : problem.Decided full solution)
    (consumers : group.consumers = problem.plan.consumersOf group.producer) {costs : List α}
    {outcome : Option (GroupOutcome α)} {junctions : List (Junction α)}
    (success : problem.handOver (full.map some) group costs = .ok outcome)
    (opens : Opens numbers outcome junctions) :
    ∃ edges, problem.Accounts solution.selection numbers [group] [outcome] edges junctions := by
  obtain ⟨producer, outside, chosen, read, result⟩ := handOver_ok success
  have distinct : (outside.map fun entry => Edge.mk group.producer entry.1).Nodup := by
    have among := (outsideConsumers_ok read).1
    rw [consumers] at among
    have targets := (decided.formed.nodup_consumersOf _).sublist among
    have edges := targets.map (f := Edge.mk group.producer) fun _ _ => congrArg Edge.target
    rwa [List.map_map] at edges
  have listed := decided.mem_outside consumers chosen read
  rcases result with ⟨rfl, rfl⟩ | ⟨outcome, source, targets, rfl, handed⟩
  · obtain rfl : junctions = [] := opens
    exact ⟨_, distinct, listed, .nil, rfl, fun exact => exact.sum_singleton _⟩
  · obtain ⟨junction, made, rfl⟩ := opens
    obtain ⟨stepCost, resolved⟩ := handed.routes
    have resolves := resolveGroup_ok resolved
    have length : outcome.consumers.length = outcome.routes.routes.length := by
      have routed := (routesFrom_ok resolves.routes).length_eq
      rwa [List.length_map, ← List.length_map (·.1), ← handed.consumers] at routed
    obtain ⟨start, reached, costs⟩ := targets_of_groupJunction length made
    have marks : outcome.consumers.map (·.2) = junction.targets.map (·.crossPlatform) := by
      rw [← List.forall₂_eq_eq_eq, List.forall₂_map_left_iff, List.forall₂_map_right_iff]
      exact reached.imp fun _ _ both => both.2.symm
    refine ⟨_, distinct, listed, ?_, ?_, fun exact => ?_⟩
    · rw [TaskGraph.connections_singleton, List.forall₂_map_left_iff, List.forall₂_map_right_iff]
      exact decided.joins_of_handedOver chosen read handed start reached
    · have counted := congrArg (List.countP id) marks
      rw [List.countP_map, List.countP_map] at counted
      rw [TaskGraph.connections_singleton, List.countP_map]
      exact counted
    · rw [TaskGraph.connections_singleton, List.map_map]
      exact (exact.sum_singleton _).trans (resolves.cost.trans (congrArg Quantity.sum costs.symm))

/-- The edges between chosen candidates are those that the junctions of all groups carry. -/
theorem accounts (decided : problem.Decided full solution) {groups : List OutputGroup}
    {outcomes : List (Option (GroupOutcome α))} {parts : List (List (Junction α))}
    (handed : List.Forall₂ (fun group outcome => ∃ costs,
      problem.handOver (full.map some) group costs = .ok outcome) groups outcomes)
    (opens : List.Forall₂ (Opens numbers) outcomes parts)
    (consumers : ∀ group ∈ groups, group.consumers = problem.plan.consumersOf group.producer)
    (distinct : (groups.map (·.producer)).Nodup) :
    ∃ edges, problem.Accounts solution.selection numbers groups outcomes edges parts.flatten := by
  induction handed generalizing parts with
  | nil =>
    cases opens
    exact ⟨[], .nil⟩
  | @cons group _ groups _ now _ ih =>
    cases opens with
    | cons next later =>
      obtain ⟨costs, success⟩ := now
      obtain ⟨edges, first⟩ :=
        decided.accounts_group (consumers group List.mem_cons_self) success next
      obtain ⟨others, rest⟩ := ih later
        (fun other listed => consumers other (List.mem_cons_of_mem _ listed))
        (List.nodup_cons.mp distinct).2
      exact ⟨edges ++ others, first.append rest distinct⟩

end Decided

/-! ## Links -/

def Internal (numbers : TaskNumbers) (wire : Wire) (junction : Junction α) : Prop :=
  junction.producer = slotAt numbers wire.producer ∧
    ∃ conversions, junction.targets = wire.consumers.map fun consumer =>
      ⟨slotAt numbers consumer, conversions, false, Quantity.zero⟩

theorem internal_of_linkJunction {numbers : TaskNumbers} {candidate : Nat}
    {replacement : Replacement α} {link : Edge} {junction : Junction α}
    (success : linkJunction numbers candidate replacement link = .ok junction) :
    Internal numbers (linkWire candidate link) junction := by
  unfold linkJunction at success
  split at success
  · split at success
    · cases success
    · obtain ⟨producer, start, success⟩ := bind_ok_iff.mp success
      obtain ⟨consumer, ends, success⟩ := bind_ok_iff.mp success
      cases success
      obtain rfl := slotAt_of_taskSlot ends
      exact ⟨slotAt_of_taskSlot start, _, rfl⟩
  · cases success

theorem internal_of_linkJunctions {numbers : TaskNumbers} {chosen : List Nat}
    {parts : List (List (Junction α))}
    (success : chosen.mapM (problem.linkJunctions numbers) = .ok parts) :
    List.Forall₂ (Internal numbers) (chosen.flatMap problem.linkWires) parts.flatten := by
  have paired : List.Forall₂ (List.Forall₂ (Internal numbers)) (chosen.map problem.linkWires)
      parts := by
    rw [List.forall₂_map_left_iff]
    refine (mapM_ok_iff.mp success).imp fun candidate part made => ?_
    unfold linkJunctions at made
    unfold linkWires
    cases known : problem.candidates[candidate]? with
    | none =>
      rw [known] at made
      cases made
      exact .nil
    | some found =>
      rw [known] at made
      exact List.forall₂_map_left_iff.mpr
        ((mapM_ok_iff.mp made).imp fun _ _ => internal_of_linkJunction)
  exact List.rel_flatten paired

theorem quiet_of_internal {numbers : TaskNumbers} {wires : List Wire} {links : List (Junction α)}
    (internal : List.Forall₂ (Internal numbers) wires links) :
    ∀ connection ∈ TaskGraph.connections links,
      connection.2.crossPlatform = false ∧ connection.2.cost = Quantity.zero := by
  intro connection present
  obtain ⟨junction, listed, among⟩ := List.mem_flatMap.mp present
  obtain ⟨target, member, rfl⟩ := List.mem_map.mp among
  obtain ⟨wire, -, -, conversions, targets⟩ := mem_right internal listed
  rw [targets] at member
  obtain ⟨consumer, -, rfl⟩ := List.mem_map.mp member
  exact ⟨rfl, rfl⟩

/-! ## What is built -/

/-- The score of a solution counts and adds up what is handed over between its candidates. -/
theorem Decided.outcomes {full : List Nat} {solution : Solution α}
    (decided : problem.Decided full solution) : ∃ outcomes,
    (List.range problem.groups.length).mapM (problem.outcome (full.map some)) = .ok outcomes ∧
      solution.score.crossLinks = Count.total (outcomes.map crossLinks) ∧
      (Quantity.Exact α → solution.score.cost =
        Quantity.sum (problem.costsOf solution.selection) +
          Quantity.sum (outcomes.map outcomeCost)) := by
  obtain ⟨outcomes, handed, scored⟩ := bind_ok_iff.mp decided.scored
  have score := Except.ok.inj scored
  refine ⟨outcomes, handed, by rw [← score], fun exact => ?_⟩
  have used : ((List.range problem.candidates.length).filter full.contains).Perm
      solution.selection := by
    refine (List.perm_ext_iff_of_nodup (List.nodup_range.filter _) decided.distinct).mpr ?_
    intro candidate
    rw [List.mem_filter, List.mem_range, List.contains_iff_mem, decided.listed]
    exact ⟨And.right, fun listed => ⟨decided.known ((decided.listed _).mpr listed), listed⟩⟩
  rw [← score]
  exact (exact.foldl _ _).trans
    (congrArg (· + _) (exact.sum_perm (used.filterMap _)))

/-- An execution plan has the tasks of the chosen candidates.  Beside the links of their
replacements its junctions have one target for each edge between two of them, and its score counts
and adds up the targets. -/
structure Realization (problem : Problem α) (solution : Solution α) (executable : ExecutionPlan α)
    (chosen : List Nat) (numbers : TaskNumbers) (links handed : List (Junction α))
    (edges : List Edge) : Prop where
  covered : ∀ id < problem.plan.size,
    ∃! candidate, candidate ∈ solution.selection ∧ problem.Stands candidate id
  selected : chosen.Perm solution.selection
  tasks : problem.Assembled chosen executable.tasks numbers
  junctions : executable.junctions = links ++ handed
  internal : List.Forall₂ (Internal numbers) (chosen.flatMap problem.linkWires) links
  distinct : edges.Nodup
  crossing : ∀ edge, edge ∈ edges ↔ problem.Crosses solution.selection edge
  joins : List.Forall₂ (problem.Joins solution.selection numbers) edges
    (TaskGraph.connections handed)
  score : executable.score = solution.score
  crossLinks : executable.score.crossLinks =
    (TaskGraph.connections executable.junctions).countP fun connection => connection.2.crossPlatform
  cost : Quantity.Exact α → executable.cost =
    Quantity.sum (problem.costsOf solution.selection) +
      Quantity.sum ((TaskGraph.connections executable.junctions).map fun connection =>
        connection.2.cost)

/-- What is built of a solution realizes the edges between its candidates, each once and at its own
slots, and costs what it was scored with. -/
theorem realization_of_build {plan : Plan} {candidates : List (Candidate α)}
    {estimator : Estimator α} {known : PlanStatistics} {config : OptimizerConfig α}
    (built : plan.Built) (created : create plan candidates estimator known config = .ok problem)
    {solution : Solution α} (solved : problem.solve = .ok solution) {epoch : Nat}
    {executable : ExecutionPlan α} (success : problem.build solution epoch = .ok executable) :
    ∃ chosen numbers links handed edges,
      problem.Realization solution executable chosen numbers links handed edges := by
  obtain ⟨full, decided⟩ := decided_of_solve built created solved
  obtain ⟨full', links, handed, complete, linked, grouped, tasks, junctions, score⟩ :=
    parts_of_build success
  obtain rfl := Option.some.inj (decided.complete.symm.trans complete)
  obtain ⟨outcomes, computed, crossLinks, cost⟩ := decided.outcomes
  obtain ⟨parts, rfl, opens⟩ := opens_of_groupJunctions computed grouped
  have groups : ∀ group, group ∈ problem.groups ↔
      problem.plan.HasOutput group.producer ∧
        group.consumers = problem.plan.consumersOf group.producer := by
    rw [decided.groups]
    exact fun group => mem_groupsOf fun _ => Plan.mem_order decided.ordered.order
  have producers : (problem.groups.map (·.producer)).Nodup := by
    rw [decided.groups]
    exact nodup_producers (Plan.taken_order decided.ordered.order).nodup
  obtain ⟨edges, accounts⟩ := decided.accounts (handOver_of_outcomes decided.costs computed) opens
    (fun group listed => ((groups group).mp listed).2) producers
  have internal := internal_of_linkJunctions linked
  have quiet := quiet_of_internal internal
  have assembled := assembled_assemble (nodup_eraseDups full) fun candidate listed =>
    decided.known (List.mem_eraseDups.mp listed)
  refine ⟨full.eraseDups, _, links.flatten, parts.flatten, edges,
    { covered := fun id => decided.existsUnique_stands
      selected := decided.perm
      tasks := tasks ▸ assembled
      junctions := junctions
      internal := internal
      distinct := accounts.distinct
      crossing := fun edge => ?_
      joins := accounts.joins
      score := score
      crossLinks := ?_
      cost := fun exact => ?_ }⟩
  · refine (accounts.listed edge).trans ⟨And.right, fun crosses => ⟨?_, crosses⟩⟩
    have known := (decided.formed.joined edge crosses.1).1
    exact List.mem_map_of_mem ((groups ⟨_, problem.plan.consumersOf edge.source⟩).mpr ⟨known, rfl⟩)
  · have silent : (TaskGraph.connections links.flatten).countP
        (fun connection => connection.2.crossPlatform) = 0 :=
      List.countP_eq_zero.mpr fun connection present => by simp [(quiet connection present).1]
    rw [score, crossLinks, accounts.crossing, junctions, TaskGraph.connections_append,
      List.countP_append, silent, Nat.zero_add]
  · have free : Quantity.sum ((TaskGraph.connections links.flatten).map
        fun connection => connection.2.cost) = Quantity.zero :=
      exact.sum_zeros
        (List.forall_mem_map.mpr fun connection present => (quiet connection present).2)
    rw [ExecutionPlan.cost, score, cost exact, accounts.cost exact, junctions,
      TaskGraph.connections_append, List.map_append, exact.sum_append, free,
      exact.comm Quantity.zero, exact.zero]

/-- A plan in which one source is read as a whole beside the other is built as it was scored. -/
theorem realization_of_build_travel : ∃ candidates problem solution executable,
    create travel candidates uniformCosts ⟨[]⟩ .standard = .ok problem ∧
    problem.solve = .ok solution ∧ problem.build solution 0 = .ok executable ∧
    (∃ chosen numbers links handed edges,
      problem.Realization solution executable chosen numbers links handed edges) ∧
    executable.cost = Quantity.sum (problem.costsOf solution.selection) +
      Quantity.sum ((TaskGraph.connections executable.junctions).map fun connection =>
        connection.2.cost) := by
  obtain ⟨⟨order, ordered⟩, -⟩ := Plan.validate_ok built_travel.wellFormed rfl
  obtain ⟨candidates, matched⟩ := builtin_candidates_ok built_travel.wellFormed bindable_travel
    uniformCosts .standard ⟨[]⟩ 0
  obtain ⟨problem, created⟩ := create_isOk ordered candidates uniformCosts ⟨[]⟩ .standard
  obtain ⟨solution, solved⟩ :=
    solve_of_builtin built_travel bindable_travel.readable matched created
  have prepared := prepared_of_create accepted_builtin built_travel matched created
  obtain ⟨executable, made, -⟩ := build_of_builtin built_travel rfl matched created
    (score?_of_solve prepared solved) 0
  obtain ⟨chosen, numbers, links, handed, edges, realization⟩ :=
    realization_of_build built_travel created solved made
  exact ⟨candidates, problem, solution, executable, created, solved, made,
    ⟨chosen, numbers, links, handed, edges, realization⟩, realization.cost Quantity.exact_rat⟩

end CrossPlan.Problem
