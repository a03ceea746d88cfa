import CrossPlan.Proofs.Selection.Completeness
import CrossPlan.Proofs.Selection.Handover

/-!
# When the greedy search fails

The greedy search takes one candidate after the other and never takes one back, so that a candidate
for an early operator can leave a later one without any.  This cannot happen where each operator is
also covered alone and rows can leave and enter every candidate in some form: there the greedy
search finds a selection as soon as every operator is covered.
-/

set_option autoImplicit false

namespace CrossPlan.Problem

open Sequence

variable {α : Type} [Quantity α] {problem : Problem α} {assigned : Assignment}

/-- Problems in which no choice rules out the rest: each operator that is covered is also covered
alone, and rows can leave and enter the candidates at their boundaries in some form. -/
structure Lenient (problem : Problem α) : Prop where
  alone : ∀ candidate ∈ problem.candidates, ∀ id ∈ candidate.covered,
    ∃ single ∈ problem.candidates, single.covered = [id]
  leaves : ∀ group ∈ problem.groups, ∀ input ∈ group.consumers,
    ∀ (chosen : Nat) (candidate : Candidate α), problem.candidates[chosen]? = some candidate →
      group.producer.operator ∈ candidate.covered → input.operator ∉ candidate.covered →
      ∃ slot operator, problem.outputSlot? chosen group.producer = some (slot, operator) ∧
        operator.outputForms slot.slot.slot ≠ []
  enters : ∀ group ∈ problem.groups, ∀ input ∈ group.consumers,
    ∀ (chosen : Nat) (candidate : Candidate α), problem.candidates[chosen]? = some candidate →
      input.operator ∈ candidate.covered → group.producer.operator ∉ candidate.covered →
      ∃ slot operator, problem.inputSlot? chosen input = some (slot, operator) ∧
        acceptedOn (operator.inputForms slot.slot.slot) (problem.isBroadcast input) ≠ []

/-! ## Handing over -/

omit [Quantity α] in
theorem outsideConsumers_isOk {group : OutputGroup}
    (consumers : ∀ input ∈ group.consumers,
      (problem.chosen? assigned input.operator).isSome = true) (producer : Nat) :
    ∃ outside, problem.outsideConsumers assigned group producer = .ok outside := by
  refine exists_bind (exists_mapM_ok fun input listed => ?_) fun entries _ => ⟨_, rfl⟩
  obtain ⟨candidate, found⟩ := Option.isSome_iff_exists.mp (consumers input listed)
  exact ⟨(input, candidate), by rw [found]⟩

namespace Lenient

/-- An output is handed over once candidates for its operator and for all its readers are chosen. -/
theorem handOver_isOk (lenient : problem.Lenient) (whole : problem.Whole assigned)
    {group : OutputGroup} (known : group ∈ problem.groups) (costs : List α)
    (producer : (problem.chosen? assigned group.producer.operator).isSome = true)
    (consumers : ∀ input ∈ group.consumers,
      (problem.chosen? assigned input.operator).isSome = true) :
    ∃ found, problem.handOver assigned group costs = .ok found := by
  obtain ⟨chosen, here⟩ := Option.isSome_iff_exists.mp producer
  obtain ⟨source, present, covers, all⟩ := whole.covered_of_chosen? here
  obtain ⟨outside, read⟩ := outsideConsumers_isOk consumers chosen
  obtain ⟨among, elsewhere, -⟩ := outsideConsumers_ok read
  have listed : ∀ entry ∈ outside, entry.1 ∈ group.consumers := fun entry member =>
    among.subset (List.mem_map_of_mem member)
  -- a reader in another candidate is not covered by that of the producer
  have apart : ∀ entry ∈ outside, entry.1.operator ∉ source.covered := by
    intro entry member covered
    obtain ⟨there, other⟩ := elsewhere entry member
    exact other (Option.some.inj (there.symm.trans (all _ covered)))
  have targets : ∀ entry ∈ outside, ∃ consumer target,
      problem.inputSlot? entry.2 entry.1 = some (consumer, target) ∧
        acceptedOn (target.inputForms consumer.slot.slot) (problem.isBroadcast entry.1) ≠ [] := by
    intro entry member
    obtain ⟨there, other⟩ := elsewhere entry member
    obtain ⟨reader, present', covers', all'⟩ := whole.covered_of_chosen? there
    exact lenient.enters group known entry.1 (listed entry member) entry.2 reader present' covers'
      fun both => other (Option.some.inj ((all' _ both).symm.trans here))
  simp only [handOver, here]
  refine exists_bind ⟨outside, read⟩ fun read' same => ?_
  obtain rfl := Except.ok.inj (read.symm.trans same)
  cases outside with
  | nil => exact ⟨none, rfl⟩
  | cons first rest =>
    obtain ⟨slot, operator, output, offered⟩ := lenient.leaves group known first.1
      (listed first List.mem_cons_self) chosen source present covers
      (apart first List.mem_cons_self)
    refine exists_bind ⟨(slot, operator), by rw [output]⟩ fun _ leaving => ?_
    rw [output] at leaving
    obtain rfl := Except.ok.inj leaving
    refine exists_bind (exists_mapM_ok fun entry member => ?_) fun entries entered => ?_
    · obtain ⟨consumer, target, input, -⟩ := targets entry member
      exact exists_bind ⟨(consumer, target), by rw [input]⟩ fun _ _ => ⟨_, rfl⟩
    · have accepting : ∀ accepted ∈ entries.map (·.2), accepted ≠ [] := by
        refine List.forall_mem_map.mpr fun accepted among => ?_
        obtain ⟨entry, member, made⟩ := mem_right (mapM_ok_iff.mp entered) among
        obtain ⟨consumer, target, input, accepting⟩ := targets entry member
        rw [input] at made
        cases made
        exact accepting
      obtain ⟨routes, resolved⟩ : ∃ routes, resolveGroup (operator.outputForms slot.slot.slot)
          (entries.map (·.2)) (stepCost costs) = .ok routes :=
        resolveGroup_isOk offered accepting
      exact ⟨_, by rw [resolved]; rfl⟩

theorem outcome_isOk (lenient : problem.Lenient) (whole : problem.Whole assigned) {place : Nat}
    (complete : problem.isComplete assigned place = true) :
    ∃ found, problem.outcome assigned place = .ok found := by
  obtain ⟨group, known, producer, consumers⟩ := isComplete_iff.mp complete
  unfold outcome
  rw [known]
  cases problem.conversionCosts[place]? with
  | none => exact ⟨none, rfl⟩
  | some costs =>
    exact lenient.handOver_isOk whole (List.mem_of_getElem? known) costs producer consumers

end Lenient

/-! ## One choice after the other -/

theorem chooseFrom_isSome {branch : Branch α} {placements : List (Placement α)}
    {best : Option (Choice α)} {failure : Option ChannelFailure}
    (possible : best.isSome = true ∨
      ∃ placement ∈ placements, ∃ next, problem.choice branch placement = .ok next) :
    (problem.chooseFrom branch placements best failure).1.isSome = true := by
  induction placements generalizing best failure with
  | nil => exact possible.resolve_right (by simp)
  | cons placement rest ih =>
    rw [chooseFrom]
    split
    · next failed =>
      refine ih (possible.imp_right ?_)
      rintro ⟨other, listed, next, made⟩
      rcases List.mem_cons.mp listed with rfl | later
      · rw [failed] at made
        cases made
      · exact ⟨other, later, next, made⟩
    · exact ih (Or.inl rfl)

theorem covering_ne_nil (ordered : problem.Ordered) (covered : problem.uncovered = [])
    {place : Nat} (within : place < problem.order.length) :
    problem.covering.getD place [] ≠ [] := by
  have within' : place < problem.covering.length := by
    rw [ordered.covering, List.length_map]
    exact within
  have entry : (problem.order[place], problem.covering[place]) ∈
      problem.order.zip problem.covering :=
    List.mem_iff_getElem?.mpr ⟨place, List.getElem?_zip_eq_some.mpr
      ⟨List.getElem?_eq_getElem within, List.getElem?_eq_getElem within'⟩⟩
  have checked := List.filterMap_eq_nil_iff.mp covered _ entry
  rw [List.getD_eq_getElem?_getD, List.getElem?_eq_getElem within', Option.getD_some]
  intro empty
  simp [empty] at checked

namespace Lenient

variable {branch : Branch α} {place : Nat} {rest : List Nat}

theorem exists_choice (lenient : problem.Lenient) (ordered : problem.Ordered)
    (reached : problem.Reached (place :: rest) branch) (covered : problem.uncovered = [])
    (free : branch.assigned.getD place none = none) :
    ∃ placement ∈ (problem.covering.getD place []).filterMap (problem.placement? branch),
      ∃ next, problem.choice branch placement = .ok next := by
  have within := reached.within place List.mem_cons_self
  obtain ⟨candidate, tried⟩ := List.exists_mem_of_ne_nil _ (covering_ne_nil ordered covered within)
  obtain ⟨found, present, id, among, here⟩ := ordered.mem_covering.mp tried
  -- the candidate that covers the operator alone needs no other place
  obtain ⟨single, listed, alone⟩ := lenient.alone found (List.mem_of_getElem? present) id among
  obtain ⟨number, known⟩ := List.mem_iff_getElem?.mp listed
  have places : problem.placesOf? number = some [place] := by
    rw [placesOf?, known, Option.bind_some, alone]
    exact mapM_some_iff.mpr (.cons (ordered.idxOf?_iff.mpr here) .nil)
  have placed := place?_iff.mpr ⟨places, fun other member => by
    rwa [List.mem_singleton.mp member], rfl⟩
  have offered := placement?_iff.mpr ⟨single, [place], _, known, placed, rfl⟩
  have covers : problem.Covers number place := (ordered.mem_placesOf? places).mp (by simp)
  refine ⟨_, List.mem_filterMap.mpr ⟨number, ordered.mem_covering.mpr covers, offered⟩, ?_⟩
  have handed : ∀ group ∈ problem.completed _ branch.counted [place],
      ∃ outcome, problem.outcome _ group = .ok outcome := fun group member =>
    lenient.outcome_isOk (reached.whole.place placed).1
      (Bool.and_eq_true_iff.mp (List.mem_filter.mp member).2).2
  obtain ⟨total, added⟩ := addGroups_isOk Quantity.zero handed
  exact ⟨_, bind_ok_iff.mpr ⟨total, added, rfl⟩⟩

theorem greedyFrom_isOk (lenient : problem.Lenient) (ordered : problem.Ordered)
    (covered : problem.uncovered = []) {ahead : List Nat} (failure : Option ChannelFailure)
    (reached : problem.Reached ahead branch) :
    ∃ result, problem.greedyFrom ahead branch failure = .ok result ∧ problem.Reached [] result := by
  induction ahead generalizing branch failure with
  | nil => exact ⟨branch, rfl, reached⟩
  | cons place rest ih =>
    rw [greedyFrom]
    split
    · next taken => exact ih failure (reached.skip taken)
    · next free =>
      have possible := lenient.exists_choice ordered reached covered
        (Option.not_isSome_iff_eq_none.mp free)
      have made : (problem.chooseFrom branch ((problem.covering.getD place []).filterMap
          (problem.placement? branch)) none failure).1.isSome = true :=
        chooseFrom_isSome (Or.inr possible)
      dsimp only
      split
      · next choice failure' chosen =>
        refine ih failure' (kept_of_chooseFrom ?_ (by simp) (congrArg Prod.fst chosen))
        intro placement offered cost
        obtain ⟨candidate, tried, placed⟩ := List.mem_filterMap.mp offered
        exact reached.extend ordered (ordered.mem_covering.mp tried) placed cost
      · next none =>
        rw [none] at made
        cases made
      · next none =>
        rw [none] at made
        cases made

end Lenient

theorem Ordered.isComplete (ordered : problem.Ordered) (formed : problem.plan.WellFormed)
    (groups : problem.groups = groupsOf problem.plan problem.order)
    (filled : ∀ place < problem.order.length, (assigned.getD place none).isSome = true)
    {place : Nat} (within : place < problem.groups.length) :
    problem.isComplete assigned place = true := by
  have chosen := fun id (known : id < problem.plan.size) => ordered.chosen?_isSome filled known
  have member : problem.groups[place] ∈ groupsOf problem.plan problem.order :=
    groups ▸ List.getElem_mem within
  obtain ⟨⟨operator, producer, -⟩, consumers⟩ :=
    (mem_groupsOf fun _ => Plan.mem_order ordered.order).mp member
  refine isComplete_iff.mpr ⟨_, List.getElem?_eq_getElem within,
    chosen _ (List.getElem?_eq_some_iff.mp producer).1, fun input listed => ?_⟩
  rw [consumers] at listed
  exact chosen _ (formed.target_lt (Plan.mem_consumersOf.mp listed))

/-- Once every operator is covered the greedy search finds a valid selection. -/
theorem Lenient.greedy_isOk (lenient : problem.Lenient) (ordered : problem.Ordered)
    (formed : problem.plan.WellFormed)
    (groups : problem.groups = groupsOf problem.plan problem.order)
    (covered : problem.uncovered = []) : ∃ solution, problem.greedy = .ok solution ∧
      problem.score? solution.selection = some solution.score := by
  obtain ⟨branch, filled, reached⟩ := lenient.greedyFrom_isOk ordered covered none Reached.start
  have handed : ∀ place ∈ List.range problem.groups.length, ∃ outcome,
      problem.outcome ((branch.assigned.filterMap id).map some) place = .ok outcome := by
    intro place listed
    rw [← reached.complete]
    exact lenient.outcome_isOk reached.whole (ordered.isComplete formed groups
      (fun other within => reached.filled other within List.not_mem_nil) (List.mem_range.mp listed))
  obtain ⟨outcomes, all⟩ := exists_mapM_ok handed
  obtain ⟨score, scored⟩ : ∃ score, problem.scoreOf (branch.assigned.filterMap id) = .ok score :=
    ⟨_, bind_ok_iff.mpr ⟨outcomes, all, rfl⟩⟩
  have complete : problem.assignment? branch.chosen = some (branch.assigned.filterMap id) := by
    rw [assignment?_iff, reached.placed, ← reached.complete]
  exact ⟨⟨branch.chosen, score⟩, bind_ok_iff.mpr ⟨branch, filled, bind_ok_iff.mpr
    ⟨score, by rw [scored]; rfl, rfl⟩⟩, score?_eq_some.mpr ⟨_, complete, scored⟩⟩

/-- Such a problem is solved whichever way it is searched. -/
theorem Lenient.solve_isOk (lenient : problem.Lenient) (ordered : problem.Ordered)
    (formed : problem.plan.WellFormed)
    (groups : problem.groups = groupsOf problem.plan problem.order)
    (covered : problem.uncovered = []) : ∃ solution, problem.solve = .ok solution := by
  obtain ⟨solution, found, valid⟩ := lenient.greedy_isOk ordered formed groups covered
  rw [solve, covered, List.isEmpty_nil, Bool.not_true, if_neg Bool.false_ne_true]
  split
  · cases searched : problem.exhaustive with
    | ok best => exact ⟨best, rfl⟩
    | error error =>
      rw [invalid_of_exhaustive ordered searched] at valid
      cases valid
  · exact ⟨solution, found⟩

/-! ## The verdict -/

/-- A problem is not called unsatisfiable where a selection is valid, if an operator is found not to
be covered, if the search is exhaustive, or if no choice can rule out the rest. -/
theorem invalid_of_solve {plan : Plan} {candidates : List (Candidate α)} {estimator : Estimator α}
    {known : PlanStatistics} {config : OptimizerConfig α} {error : OptimizeError}
    (built : plan.Built) (created : create plan candidates estimator known config = .ok problem)
    (failed : problem.solve = .error error)
    (searched : problem.uncovered ≠ [] ∨ candidates.length ≤ config.exhaustiveLimit ∨
      problem.Lenient) (selection : List Nat) : problem.score? selection = none := by
  have ordered := ordered_of_create created
  obtain ⟨rfl, rfl, rfl, -, -, groups, -⟩ := create_ok created
  by_cases covered : problem.uncovered = []
  · rcases searched with uncovered | small | lenient
    · exact absurd covered uncovered
    · rw [solve, covered, List.isEmpty_nil, Bool.not_true, if_neg Bool.false_ne_true,
        if_pos small] at failed
      exact invalid_of_exhaustive ordered failed selection
    · obtain ⟨solution, found⟩ := lenient.solve_isOk ordered built.wellFormed groups covered
      rw [found] at failed
      cases failed
  · exact invalid_of_uncovered ordered covered selection

/-! ## A problem without a selection -/

def muted (candidate : Candidate Rat) : Candidate Rat :=
  let operators := candidate.replacement.operators.map fun operator =>
    { operator with outputForms := fun _ => [] }
  { candidate with replacement := { candidate.replacement with operators } }

def mutedProblem : Problem Rat :=
  { adultsProblem with
    candidates := adultsCandidates.map muted
    lowerShare := adultsProblem.covering.map (leastShare? (adultsCandidates.map muted)) }

theorem muted_created : create adults (adultsCandidates.map muted) uniformCosts ⟨[]⟩ .standard =
    .ok mutedProblem := by
  have order : adults.order = .ok [0, 1, 2] := by decide +kernel
  have covering : [0, 1, 2].map (coveringOf (adultsCandidates.map muted)) =
      [[0, 1], [2, 3], [4, 5]] := by
    simp only [coveringOf, List.map_cons, List.map_nil]
    rw [List.mergeSort_of_pairwise (by decide +kernel),
      List.mergeSort_of_pairwise (by decide +kernel),
      List.mergeSort_of_pairwise (by decide +kernel)]
    decide +kernel
  unfold create
  rw [order]
  simp only [Except.mapError, mutedProblem, adultsProblem, ← covering]
  rfl

/-- All operators are covered, but nothing can leave the source. -/
theorem invalid_of_solve_muted : mutedProblem.uncovered = [] ∧ mutedProblem.solve.isOk = false ∧
    mutedProblem.score? [0, 2, 4] = none := by
  have fails : mutedProblem.solve.isOk = false := by decide +kernel
  refine ⟨by decide +kernel, fails, ?_⟩
  cases failed : mutedProblem.solve with
  | ok solution => simp [failed, Except.isOk, Except.toBool] at fails
  | error error =>
    exact invalid_of_solve built_adults muted_created failed (Or.inr (Or.inl (by decide +kernel)))
      [0, 2, 4]

/-! ## Candidates by the nodes of their matches -/

omit [Quantity α] in
theorem contains_covered (candidate : Candidate α) (id : Nat) :
    candidate.covered.contains id = candidate.matched.nodes.contains id := by
  rw [Bool.eq_iff_iff, List.contains_iff_mem, List.contains_iff_mem]
  exact List.mem_mergeSort

theorem share_eq (candidate : Candidate α) (cost : α) :
    share candidate cost = cost / Quantity.ofNat (max 1 candidate.matched.nodes.length) := by
  rw [share, Candidate.covered, SubplanMatch.covered, List.length_mergeSort]

omit [Quantity α] in
/-- Where the nodes of matches ascend, what is covered is told without sorting, which does not
reduce. -/
theorem placesOf?_of_nodes {nodes : List (List Nat)}
    (given : problem.candidates.map (·.matched.nodes) = nodes)
    (ascend : ∀ ids ∈ nodes, ids.Pairwise (· ≤ ·)) (candidate : Nat) :
    problem.placesOf? candidate =
      nodes[candidate]?.bind fun ids => ids.mapM (problem.order.idxOf? ·) := by
  subst given
  rw [placesOf?, List.getElem?_map]
  cases present : problem.candidates[candidate]? with
  | none => rfl
  | some found =>
    have sorted := ascend _ (List.mem_map_of_mem (List.mem_of_getElem? present))
    rw [Option.bind_some, Option.map_some, Option.bind_some, Candidate.covered,
      SubplanMatch.covered, List.mergeSort_of_pairwise (sorted.imp decide_eq_true)]

/-! ## A problem that the greedy search cannot solve -/

def names : Plan :=
  { operators :=
      [.create 0 "people" (.collectionSource []), .create 1 "grown" (.filter "age > 17"),
        .create 2 "names" (.project ["name"]), .create 3 "out" (.sink "memory://names")]
    edges := [⟨⟨0, 0⟩, ⟨1, 0⟩⟩, ⟨⟨1, 0⟩, ⟨2, 0⟩⟩, ⟨⟨2, 0⟩, ⟨3, 0⟩⟩] }

/-- Doing a filter and a projection in one pass takes longer than anything else. -/
def fusionCosts : Estimator Rat :=
  .create (fun key => .ok (some (.ofTimes
    (if key == "distributed.filter_project.main" then Quantity.ofNat 10 else Quantity.one)
    Quantity.zero))) .standard

def namesRules : List (Rule Rat) :=
  [kindRule .inProcess .collectionSource, kindRule .inProcess .filter, filterProjectRule,
    kindRule .inProcess .sink]

def namesFound : Except MappingError (List (List (Candidate Rat))) :=
  namesRules.zipIdx.mapM fun (rule, place) => (rule.pattern.findMatches names).mapM
    (RuleRegistry.candidate fusionCosts .standard names ⟨[]⟩ 0 place rule)

def namesCandidates : List (Candidate Rat) :=
  (namesFound.toOption.getD []).flatten.zipIdx.map fun (candidate, place) =>
    { candidate with id := place }

def namesProblem : Problem Rat :=
  let groups := groupsOf names [0, 1, 2, 3]
  let covering := [[0], [1, 2], [2], [3]]
  { plan := names, candidates := namesCandidates, config := ⟨3, Platform.all, .standard⟩
    order := [0, 1, 2, 3], covering, groups
    touching := [0, 1, 2, 3].map (touchingOf groups)
    conversionCosts := groups.map (conversionCostsOf fusionCosts .standard ⟨[]⟩)
    lowerShare := covering.map (leastShare? namesCandidates) }

theorem names_created : create names namesCandidates fusionCosts ⟨[]⟩
    ⟨3, Platform.all, .standard⟩ = .ok namesProblem := by
  have order : names.order = .ok [0, 1, 2, 3] := by decide +kernel
  have covering : [0, 1, 2, 3].map (coveringOf namesCandidates) = [[0], [1, 2], [2], [3]] := by
    simp only [coveringOf, contains_covered, List.map_cons, List.map_nil]
    rw [List.mergeSort_of_pairwise (by decide +kernel),
      List.mergeSort_of_pairwise (by decide +kernel),
      List.mergeSort_of_pairwise (by decide +kernel),
      List.mergeSort_of_pairwise (by decide +kernel)]
    decide +kernel
  unfold create
  rw [order]
  simp only [Except.mapError, namesProblem, ← covering]
  rfl

theorem names_nodes : namesCandidates.map (·.matched.nodes) = [[0], [1], [1, 2], [3]] := by
  decide +kernel

theorem names_placesOf? (candidate : Nat) : namesProblem.placesOf? candidate =
    (([[0], [1], [1, 2], [3]] : List (List Nat))[candidate]?).bind fun ids =>
      ids.mapM ([0, 1, 2, 3].idxOf? ·) :=
  placesOf?_of_nodes names_nodes (by decide) candidate

theorem names_candidate (place : Nat) (within : place < 4) : ∃ candidate,
    namesProblem.candidates[place]? = some candidate ∧
      [[0], [1], [1, 2], [3]][place]? = some candidate.matched.nodes ∧
      ([219 / 100, 219 / 100, 2409 / 200, 219 / 100] : List Rat)[place]? =
        some candidate.cost := by
  have costs : namesCandidates.map (·.cost) = [219 / 100, 219 / 100, 2409 / 200, 219 / 100] := by
    decide +kernel
  have known : place < namesCandidates.length := by
    have length := congrArg List.length names_nodes
    rw [List.length_map] at length
    simpa [length] using within
  refine ⟨namesCandidates[place], List.getElem?_eq_getElem known, ?_, ?_⟩
  · rw [← names_nodes, List.getElem?_map, List.getElem?_eq_getElem known]
    rfl
  · rw [← costs, List.getElem?_map, List.getElem?_eq_getElem known]
    rfl

omit [Quantity α] in
theorem placement?_of_free {branch : Branch α} {place : Nat} {candidate : Candidate α}
    {places : List Nat} (present : problem.candidates[place]? = some candidate)
    (covered : problem.placesOf? place = some places)
    (free : ∀ other ∈ places, branch.assigned.getD other none = none) :
    let filled := places.foldl (fun assigned other => assigned.set other (some place))
      branch.assigned
    problem.placement? branch place = some ⟨place, candidate, filled,
      problem.completed filled branch.counted places⟩ :=
  placement?_iff.mpr
    ⟨candidate, places, _, present, place?_iff.mpr ⟨covered, free, rfl⟩, rfl⟩

section Steps

variable {branch : Branch α} {place : Nat} {rest tried : List Nat}

theorem greedyFrom_taking {failure failure' : Option ChannelFailure} {choice : Choice α}
    (free : branch.assigned.getD place none = none)
    (covering : problem.covering.getD place [] = tried)
    (chosen : problem.chooseFrom branch (tried.filterMap (problem.placement? branch)) none failure =
      (some choice, failure')) :
    problem.greedyFrom (place :: rest) branch failure =
      problem.greedyFrom rest choice.branch failure' := by
  rw [greedyFrom, if_neg (Option.not_isSome_iff_eq_none.mpr free), covering]
  dsimp only
  rw [chosen]

theorem greedyFrom_stuck (free : branch.assigned.getD place none = none)
    (covering : problem.covering.getD place [] = tried)
    (stuck : tried.filterMap (problem.placement? branch) = []) :
    problem.greedyFrom (place :: rest) branch none =
      .error (.unsatisfiable [problem.nameAt place]) := by
  rw [greedyFrom, if_neg (Option.not_isSome_iff_eq_none.mpr free), covering, stuck]
  rfl

end Steps

def namesStart : Branch Rat := ⟨namesProblem.unassigned, [], [], Quantity.zero⟩

def namesFirst : Branch Rat := ⟨[some 0, none, none, none], [], [0], Quantity.zero⟩

def namesSecond : Branch Rat := ⟨[some 0, some 1, none, none], [0], [0, 1], Quantity.zero⟩

/-- The filter alone is cheaper than its share in the one pass with the conversions around it. -/
theorem names_chooseFrom : ∃ choice, choice.branch = namesSecond ∧
    namesProblem.chooseFrom namesFirst
      ([1, 2].filterMap (namesProblem.placement? namesFirst)) none none = (some choice, none) := by
  obtain ⟨alone, atAlone, coversAlone, costAlone⟩ := names_candidate 1 (by decide)
  obtain ⟨both, atBoth, coversBoth, costBoth⟩ := names_candidate 2 (by decide)
  have offered : [1, 2].filterMap (namesProblem.placement? namesFirst) =
      [⟨1, alone, [some 0, some 1, none, none], [0]⟩,
        ⟨2, both, [some 0, some 2, some 2, none], [0, 1]⟩] := by
    rw [List.filterMap_cons, placement?_of_free atAlone (names_placesOf? 1) (by decide),
      List.filterMap_cons, placement?_of_free atBoth (names_placesOf? 2) (by decide)]
    rfl
  have handed : namesProblem.addGroups [some 0, some 1, none, none] Quantity.zero [0] =
      .ok 0 := by
    decide +kernel
  have handed' : namesProblem.addGroups [some 0, some 2, some 2, none] Quantity.zero [0, 1] =
      .ok (219 / 200) := by
    decide +kernel
  have shares : share alone (alone.cost + 0) = 219 / 100 ∧
      share both (both.cost + 219 / 200) = 657 / 100 := by
    rw [share_eq, share_eq, ← Option.some.inj coversAlone, ← Option.some.inj coversBoth,
      ← Option.some.inj costAlone, ← Option.some.inj costBoth]
    decide +kernel
  have dearer : ∀ (a b : Nat) (c d : Branch Rat),
      Choice.better ⟨657 / 100, a, c⟩ ⟨219 / 100, b, d⟩ = false := by
    intro a b c d
    have different : sameCost (657 / 100 : Rat) (219 / 100) = false := by decide +kernel
    have more : Quantity.lt (657 / 100 : Rat) (219 / 100) = false := by decide +kernel
    rw [Choice.better, different, more]
    rfl
  refine ⟨⟨219 / 100, namesProblem.config.rank alone.platform, namesSecond⟩, rfl, ?_⟩
  rw [offered]
  simp only [chooseFrom, choice, handed, handed', bind, Except.bind, pure, Except.pure, shares.1,
    shares.2, dearer]
  rfl

theorem names_greedyFrom :
    namesProblem.greedyFrom [0, 1, 2, 3] namesStart none = .error (.unsatisfiable ["names"]) := by
  obtain ⟨source, atSource, -⟩ := names_candidate 0 (by decide)
  obtain ⟨both, atBoth, -⟩ := names_candidate 2 (by decide)
  have first : [0].filterMap (namesProblem.placement? namesStart) =
      [⟨0, source, [some 0, none, none, none], []⟩] := by
    rw [List.filterMap_cons, placement?_of_free atSource (names_placesOf? 0) (by decide)]
    rfl
  obtain ⟨second, same, chosen⟩ := names_chooseFrom
  have stuck : [2].filterMap (namesProblem.placement? namesSecond) = [] := by
    have taken : namesProblem.place? 2 namesSecond.assigned = none := by
      rw [place?, names_placesOf?]
      rfl
    rw [List.filterMap_cons, placement?]
    simp only [atBoth, taken, Option.bind_eq_bind, Option.bind_some, Option.bind_none,
      List.filterMap_nil]
  have taken : namesProblem.chooseFrom namesStart
      ([0].filterMap (namesProblem.placement? namesStart)) none none =
        (some ⟨share source (source.cost + Quantity.zero),
          namesProblem.config.rank source.platform, namesFirst⟩, none) := by
    rw [first]
    rfl
  calc namesProblem.greedyFrom [0, 1, 2, 3] namesStart none
      = namesProblem.greedyFrom [1, 2, 3] namesFirst none := by
        rw [greedyFrom_taking rfl rfl taken]
    _ = namesProblem.greedyFrom [2, 3] second.branch none := greedyFrom_taking rfl rfl chosen
    _ = .error (.unsatisfiable [namesProblem.nameAt 2]) := by
      rw [same, greedyFrom_stuck rfl rfl stuck]
    _ = .error (.unsatisfiable ["names"]) := rfl

/-- The search stops at the projection, which the one pass over both operators covers. -/
theorem greedy_misses_names : create names namesCandidates fusionCosts ⟨[]⟩
      ⟨3, Platform.all, .standard⟩ = .ok namesProblem ∧
    namesProblem.solve = .error (.unsatisfiable ["names"]) ∧
    (namesProblem.score? [0, 2, 3]).isSome = true := by
  refine ⟨names_created, ?_, ?_⟩
  · have covered : namesProblem.uncovered = [] := by decide +kernel
    have large : ¬ namesProblem.candidates.length ≤ namesProblem.config.exhaustiveLimit := by
      obtain ⟨_, last, -⟩ := names_candidate 3 (by decide)
      exact Nat.not_le.mpr (List.getElem?_eq_some_iff.mp last).1
    rw [solve, covered, List.isEmpty_nil, Bool.not_true, if_neg Bool.false_ne_true, if_neg large,
      greedy]
    change (namesProblem.greedyFrom [0, 1, 2, 3] namesStart none >>= _) = _
    rw [names_greedyFrom]
    rfl
  · have complete : namesProblem.assignment? [0, 2, 3] = some [0, 2, 2, 3] := by
      simp only [assignment?, place?, names_placesOf?, List.foldlM]
      decide +kernel
    have scored : (namesProblem.scoreOf [0, 2, 2, 3]).toOption.isSome = true := by decide +kernel
    rwa [score?, complete, Option.bind_some]

end CrossPlan.Problem
