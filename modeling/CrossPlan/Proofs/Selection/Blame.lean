import CrossPlan.Proofs.Selection.Greedy

/-!
# What the greedy search blames

The greedy search stops at the first place for which every candidate overlaps one that is placed, or
is rejected because an output could not be handed over.  The error tells the last rejection of the
whole pass.  Where a candidate for the place itself was rejected it is one of those, so that it says
why the pass stopped there; where all of them overlap it may be one of a place that another
candidate has filled.
-/

set_option autoImplicit false

namespace CrossPlan.Problem

open Sequence

variable {α : Type} [Quantity α] {problem : Problem α}

/-! ## Rejections -/

/-- A failure that names the operator of an output and that of one of its readers. -/
def NamesEnds (problem : Problem α) (group : OutputGroup) (failure : ChannelFailure) : Prop :=
  ∃ input ∈ group.consumers,
    failure = ⟨problem.nameOf group.producer.operator, problem.nameOf input.operator⟩

theorem namesEnds_of_handOver {assigned : Assignment} {group : OutputGroup} {costs : List α}
    {failure : ChannelFailure}
    (producer : (problem.chosen? assigned group.producer.operator).isSome = true)
    (consumers : ∀ input ∈ group.consumers,
      (problem.chosen? assigned input.operator).isSome = true)
    (failed : problem.handOver assigned group costs = .error failure) :
    problem.NamesEnds group failure := by
  obtain ⟨chosen, here⟩ := Option.isSome_iff_exists.mp producer
  obtain ⟨outside, read⟩ := outsideConsumers_isOk consumers chosen
  have listed : ∀ entry ∈ outside, entry.1 ∈ group.consumers := fun entry member =>
    (outsideConsumers_ok read).1.subset (List.mem_map_of_mem member)
  simp only [handOver, here] at failed
  rcases error_of_bind failed with failed | ⟨outside', same, failed⟩
  · rw [read] at failed
    cases failed
  obtain rfl := Except.ok.inj (read.symm.trans same)
  cases outside with
  | nil => cases failed
  | cons first rest =>
    -- nothing stands for the output in its candidate
    rcases error_of_bind failed with failed | ⟨⟨slot, source⟩, -, failed⟩
    · split at failed
      · cases failed
      · exact ⟨first.1, listed first List.mem_cons_self, (Except.error.inj failed).symm⟩
    -- nothing stands for an input in the candidate of its reader
    rcases error_of_bind failed with failed | ⟨targets, entered, failed⟩
    · obtain ⟨⟨input, candidate⟩, member, failed⟩ := error_of_mapM failed
      rcases error_of_bind failed with failed | ⟨_, -, failed⟩
      · split at failed
        · cases failed
        · exact ⟨input, listed _ member, (Except.error.inj failed).symm⟩
      · cases failed
    -- the forms do not meet: the reader at the place that was missed, or else the first
    · split at failed
      · cases failed
      · next missed _ =>
        exact ⟨_, listed _ (getD_mem List.mem_cons_self missed), (Except.error.inj failed).symm⟩

/-- An output that is complete but cannot be handed over is told by the names of its two ends. -/
theorem namesEnds_of_outcome {assigned : Assignment} {place : Nat} {failure : ChannelFailure}
    (complete : problem.isComplete assigned place = true)
    (failed : problem.outcome assigned place = .error failure) :
    ∃ group, problem.groups[place]? = some group ∧ problem.NamesEnds group failure := by
  obtain ⟨group, known, producer, consumers⟩ := isComplete_iff.mp complete
  refine ⟨group, known, ?_⟩
  unfold outcome at failed
  rw [known] at failed
  cases costs : problem.conversionCosts[place]? with
  | none =>
    rw [costs] at failed
    cases failed
  | some costs' =>
    rw [costs] at failed
    exact namesEnds_of_handOver producer consumers failed

theorem addGroups_error {assigned : Assignment} {places : List Nat} {start : α}
    {failure : ChannelFailure}
    (failed : problem.addGroups assigned start places = .error failure) :
    ∃ place ∈ places, problem.outcome assigned place = .error failure := by
  unfold addGroups at failed
  induction places generalizing start with
  | nil => cases failed
  | cons place rest ih =>
    rw [List.foldlM_cons] at failed
    rcases error_of_bind failed with failed | ⟨next, -, failed⟩
    · rcases error_of_bind failed with failed | ⟨_, -, failed⟩
      · exact ⟨place, List.mem_cons_self, failed⟩
      · cases failed
    · obtain ⟨other, later, failed⟩ := ih failed
      exact ⟨other, List.mem_cons_of_mem _ later, failed⟩

theorem handed_of_addGroups {assigned : Assignment} {places : List Nat} {start total : α}
    (added : problem.addGroups assigned start places = .ok total) :
    ∀ place ∈ places, ∃ found, problem.outcome assigned place = .ok found := by
  unfold addGroups at added
  induction places generalizing start with
  | nil => exact fun _ none => absurd none List.not_mem_nil
  | cons place rest ih =>
    rw [List.foldlM_cons] at added
    obtain ⟨next, now, later⟩ := bind_ok_iff.mp added
    obtain ⟨found, handed, -⟩ := bind_ok_iff.mp now
    exact List.forall_mem_cons.mpr ⟨⟨found, handed⟩, ih later⟩

/-! ## One place -/

def Overlaps (problem : Problem α) (branch : Branch α) (candidate : Nat) : Prop :=
  ∃ found, problem.candidates[candidate]? = some found ∧
    ∃ id ∈ found.covered, (problem.chosen? branch.assigned id).isSome = true

/-- A candidate that overlaps nothing that is placed, but completes an output that cannot be handed
over; the failure tells the two ends of it. -/
def Rejects (problem : Problem α) (branch : Branch α) (candidate : Nat)
    (failure : ChannelFailure) : Prop :=
  ∃ placement, problem.placement? branch candidate = some placement ∧
    ∃ place ∈ placement.completed,
      problem.outcome placement.assigned place = .error failure ∧
        ∃ group, problem.groups[place]? = some group ∧ problem.NamesEnds group failure

def offers (problem : Problem α) (branch : Branch α) (place : Nat) : List (Placement α) :=
  (problem.covering.getD place []).filterMap (problem.placement? branch)

def choices (problem : Problem α) (branch : Branch α) (place : Nat) : List (Choice α) :=
  (problem.offers branch place).filterMap fun placement =>
    (problem.choice branch placement).toOption

def rejection? (problem : Problem α) (branch : Branch α) (placement : Placement α) :
    Option ChannelFailure :=
  match problem.choice branch placement with
  | .ok _ => none
  | .error failure => some failure

/-- Why placements of a place are rejected, in the order in which they are tried. -/
def rejections (problem : Problem α) (branch : Branch α) (place : Nat) : List ChannelFailure :=
  (problem.offers branch place).filterMap (problem.rejection? branch)

theorem chooseFrom_eq (branch : Branch α) (placements : List (Placement α))
    (best : Option (Choice α)) (failure : Option ChannelFailure) :
    problem.chooseFrom branch placements best failure =
      (bestBy Choice.better (best.toList ++ placements.filterMap fun placement =>
          (problem.choice branch placement).toOption),
        (placements.filterMap (problem.rejection? branch)).getLast?.or failure) := by
  induction placements generalizing best failure with
  | nil => cases best <;> rfl
  | cons placement rest ih =>
    rw [chooseFrom]
    cases made : problem.choice branch placement with
    | error failure' =>
      have now : problem.rejection? branch placement = some failure' := by
        rw [rejection?, made]
      simp only
      rw [ih, List.filterMap_cons, List.filterMap_cons, made, now, List.getLast?_cons]
      cases (rest.filterMap (problem.rejection? branch)).getLast? <;> rfl
    | ok next =>
      have now : problem.rejection? branch placement = none := by
        rw [rejection?, made]
      simp only
      rw [ih, List.filterMap_cons, List.filterMap_cons, made, now]
      cases best <;> rfl

theorem chooseFrom_offers (branch : Branch α) (place : Nat) (earlier : List ChannelFailure) :
    problem.chooseFrom branch (problem.offers branch place) none earlier.getLast? =
      (bestBy Choice.better (problem.choices branch place),
        (earlier ++ problem.rejections branch place).getLast?) := by
  rw [chooseFrom_eq, List.getLast?_append]
  rfl

theorem choice_ok {branch : Branch α} {placement : Placement α} {choice : Choice α}
    (made : problem.choice branch placement = .ok choice) :
    choice.branch = branch.after placement Quantity.zero ∧
      ∀ place ∈ placement.completed, ∃ found,
        problem.outcome placement.assigned place = .ok found := by
  obtain ⟨channels, added, made⟩ := bind_ok_iff.mp made
  cases made
  exact ⟨rfl, handed_of_addGroups added⟩

theorem exists_of_mem_choices {branch : Branch α} {place : Nat} {choice : Choice α}
    (listed : choice ∈ problem.choices branch place) :
    ∃ candidate ∈ problem.covering.getD place [], ∃ placement,
      problem.placement? branch candidate = some placement ∧
        problem.choice branch placement = .ok choice := by
  obtain ⟨placement, offered, made⟩ := List.mem_filterMap.mp listed
  obtain ⟨candidate, tried, placed⟩ := List.mem_filterMap.mp offered
  refine ⟨candidate, tried, placement, placed, ?_⟩
  cases outcome : problem.choice branch placement with
  | ok next => rw [outcome] at made; exact congrArg Except.ok (Option.some.inj made)
  | error failure => rw [outcome] at made; cases made

theorem rejects_of_mem_rejections {branch : Branch α} {place : Nat} {failure : ChannelFailure}
    (listed : failure ∈ problem.rejections branch place) :
    ∃ candidate ∈ problem.covering.getD place [], problem.Rejects branch candidate failure := by
  obtain ⟨placement, offered, rejected⟩ := List.mem_filterMap.mp listed
  obtain ⟨candidate, tried, placed⟩ := List.mem_filterMap.mp offered
  refine ⟨candidate, tried, placement, placed, ?_⟩
  obtain ⟨_, places, assigned, -, -, rfl⟩ := placement?_iff.mp placed
  rw [rejection?] at rejected
  split at rejected
  · cases rejected
  · next failure' failed =>
    obtain rfl := Option.some.inj rejected
    rcases error_of_bind failed with failed | ⟨_, -, failed⟩
    · obtain ⟨group, completed, failed⟩ := addGroups_error failed
      have complete := (Bool.and_eq_true_iff.mp (List.mem_filter.mp completed).2).2
      exact ⟨group, completed, failed, namesEnds_of_outcome complete failed⟩
    · cases failed

omit [Quantity α] in
/-- The placements that are tried, once it is known which places the candidates cover. -/
theorem offers_eq {covers : Nat → Option (List Nat)}
    (told : ∀ number, problem.placesOf? number = covers number) (branch : Branch α) (place : Nat) :
    problem.offers branch place = (problem.covering.getD place []).filterMap fun number =>
      problem.candidates[number]?.bind fun candidate => (covers number).bind fun places =>
        if places.any fun other => (branch.assigned.getD other none).isSome then none
        else
          let filled := places.foldl (fun assigned other => assigned.set other (some number))
            branch.assigned
          some ⟨number, candidate, filled, problem.completed filled branch.counted places⟩ := by
  refine List.filterMap_congr fun number _ => ?_
  simp only [placement?, place?, told, Option.bind_eq_bind, Option.bind_assoc]
  congr! 2 with candidate places
  split <;> rfl

theorem choices_singleton {branch : Branch α} {place : Nat} {placement : Placement α}
    {choice : Choice α} (offered : problem.offers branch place = [placement])
    (handed : problem.choice branch placement = .ok choice) :
    problem.choices branch place = [choice] ∧ problem.rejections branch place = [] := by
  simp only [choices, rejections, offered, rejection?, handed, List.filterMap_cons,
    List.filterMap_nil, Except.toOption, and_self]

theorem offers_eq_nil {branch : Branch α} {place : Nat}
    (unchosen : problem.choices branch place = [])
    (unrejected : problem.rejections branch place = []) : problem.offers branch place = [] := by
  refine List.eq_nil_iff_forall_not_mem.mpr fun placement offered => ?_
  have no := List.filterMap_eq_nil_iff.mp unchosen placement offered
  have neither := List.filterMap_eq_nil_iff.mp unrejected placement offered
  rw [rejection?] at neither
  cases made : problem.choice branch placement with
  | ok next => rw [made] at no; cases no
  | error failure => rw [made] at neither; cases neither

/-! ## The pass -/

/-- What the greedy search passes through: the places ahead, the branch that is built, and all
rejections so far. -/
inductive Passes (problem : Problem α) : List Nat → Branch α → List ChannelFailure → Prop where
  | start : problem.Passes problem.places ⟨problem.unassigned, [], [], Quantity.zero⟩ []
  | skip {place : Nat} {ahead : List Nat} {branch : Branch α} {failures : List ChannelFailure} :
    problem.Passes (place :: ahead) branch failures →
      (branch.assigned.getD place none).isSome = true → problem.Passes ahead branch failures
  | take {place : Nat} {ahead : List Nat} {branch : Branch α} {failures : List ChannelFailure}
      {choice : Choice α} : problem.Passes (place :: ahead) branch failures →
    branch.assigned.getD place none = none →
      bestBy Choice.better (problem.choices branch place) = some choice →
        problem.Passes ahead choice.branch (failures ++ problem.rejections branch place)

structure Stops (problem : Problem α) (place : Nat) (branch : Branch α)
    (earlier : List ChannelFailure) : Prop where
  passes : ∃ ahead, problem.Passes (place :: ahead) branch earlier
  free : branch.assigned.getD place none = none
  unchosen : problem.choices branch place = []

def verdict (problem : Problem α) (place : Nat) (failures : List ChannelFailure) : OptimizeError :=
  match failures.getLast? with
  | some failure => failure.toError
  | none => .unsatisfiable [problem.nameAt place]

variable {ahead : List Nat} {branch : Branch α} {failures : List ChannelFailure}

theorem Passes.ends (passes : problem.Passes ahead branch failures) :
    (∃ result rejected, problem.Passes [] result rejected) ∨
      ∃ place reached earlier, problem.Stops place reached earlier := by
  induction ahead generalizing branch failures with
  | nil => exact Or.inl ⟨branch, failures, passes⟩
  | cons place rest ih =>
    by_cases taken : (branch.assigned.getD place none).isSome = true
    · exact ih (passes.skip taken)
    · have free := Option.not_isSome_iff_eq_none.mp taken
      cases best : bestBy Choice.better (problem.choices branch place) with
      | some choice => exact ih (passes.take free best)
      | none =>
        have unchosen : problem.choices branch place = [] := by
          by_contra some
          rw [← Option.not_isSome_iff_eq_none] at best
          exact best (bestBy_isSome.mpr some)
        exact Or.inr ⟨place, branch, failures, ⟨rest, passes⟩, free, unchosen⟩

theorem greedyFrom_free {place : Nat} (free : branch.assigned.getD place none = none) :
    problem.greedyFrom (place :: ahead) branch failures.getLast? =
      (bestBy Choice.better (problem.choices branch place)).elim
        (.error (problem.verdict place (failures ++ problem.rejections branch place)))
        fun choice => problem.greedyFrom ahead choice.branch
          (failures ++ problem.rejections branch place).getLast? := by
  have chosen : problem.chooseFrom branch (problem.offers branch place) none _ = _ :=
    chooseFrom_offers branch place failures
  rw [offers] at chosen
  rw [greedyFrom, if_neg (Option.not_isSome_iff_eq_none.mpr free)]
  simp only [chosen, verdict]
  cases bestBy Choice.better (problem.choices branch place) <;>
    cases (failures ++ problem.rejections branch place).getLast? <;> rfl

/-- The greedy search goes the way of a pass, with its last rejection in mind. -/
theorem Passes.greedyFrom_eq (passes : problem.Passes ahead branch failures) :
    problem.greedyFrom problem.places ⟨problem.unassigned, [], [], Quantity.zero⟩ none =
      problem.greedyFrom ahead branch failures.getLast? := by
  induction passes with
  | start => rfl
  | skip _ taken ih => rw [ih, greedyFrom, if_pos taken]
  | take _ free best ih => rw [ih, greedyFrom_free free, best, Option.elim_some]

theorem Stops.greedyFrom_eq {place : Nat} {earlier : List ChannelFailure}
    (stops : problem.Stops place branch earlier) :
    problem.greedyFrom problem.places ⟨problem.unassigned, [], [], Quantity.zero⟩ none =
      .error (problem.verdict place (earlier ++ problem.rejections branch place)) := by
  obtain ⟨ahead, passes⟩ := stops.passes
  rw [passes.greedyFrom_eq, greedyFrom_free stops.free, stops.unchosen]
  rfl

/-! ## What a pass leaves -/

/-- A branch on which every output that is complete can be handed over, and those that are counted
are complete. -/
structure Relays (problem : Problem α) (branch : Branch α) : Prop where
  counted : ∀ place ∈ branch.counted, problem.isComplete branch.assigned place = true
  outcome : ∀ place, problem.isComplete branch.assigned place = true →
    ∃ found, problem.outcome branch.assigned place = .ok found

theorem touched_of_isComplete (ordered : problem.Ordered)
    (touching : problem.touching = problem.order.map (touchingOf problem.groups))
    {assigned result : Assignment} {places : List Nat} {candidate : Nat}
    (value : ∀ place, result.getD place none =
      if place ∈ places then some candidate else assigned.getD place none) {place : Nat}
    (before : ¬ problem.isComplete assigned place = true)
    (complete : problem.isComplete result place = true) :
    ∃ here ∈ places, place ∈ problem.touching.getD here [] := by
  obtain ⟨group, known, producer, consumers⟩ := isComplete_iff.mp complete
  have fresh : ∃ id, touches group id = true ∧ (problem.chosen? result id).isSome = true ∧
      ¬ (problem.chosen? assigned id).isSome = true := by
    by_contra none
    push Not at none
    refine before (isComplete_iff.mpr ⟨group, known, none _ ?_ producer, fun input listed =>
      none _ ?_ (consumers input listed)⟩)
    · simp [touches]
    · rw [touches, Bool.or_eq_true, List.any_eq_true]
      exact Or.inr ⟨input, listed, beq_self_eq_true _⟩
  obtain ⟨id, touched, after, free⟩ := fresh
  obtain ⟨taken, held⟩ := Option.isSome_iff_exists.mp after
  obtain ⟨here, index, held⟩ := Option.bind_eq_some_iff.mp held
  refine ⟨here, ?_, ?_⟩
  · by_contra outside
    rw [value, if_neg outside] at held
    exact free (Option.isSome_of_eq_some (Option.bind_eq_some_iff.mpr ⟨here, index, held⟩))
  · rw [touching, List.getD_eq_getElem?_getD, List.getElem?_map, ordered.idxOf?_iff.mp index]
    refine List.mem_filter.mpr ⟨List.mem_range.mpr (List.getElem?_eq_some_iff.mp known).1, ?_⟩
    rw [known]
    exact touched

/-- A placement that is handed over leaves a branch that is. -/
theorem Relays.after (handed : problem.Relays branch) (ordered : problem.Ordered)
    (touching : problem.touching = problem.order.map (touchingOf problem.groups))
    (whole : problem.Whole branch.assigned) {candidate : Nat} {placement : Placement α}
    (placed : problem.placement? branch candidate = some placement)
    (completed : ∀ place ∈ placement.completed, ∃ found,
      problem.outcome placement.assigned place = .ok found) (cost : α) :
    problem.Relays (branch.after placement cost) := by
  obtain ⟨_, places, assigned, -, step, rfl⟩ := placement?_iff.mp placed
  obtain ⟨-, keeps, value⟩ := whole.place step
  constructor
  · intro place listed
    rcases List.mem_append.mp listed with old | new
    · exact isComplete_of_keeps keeps (handed.counted place old)
    · exact (Bool.and_eq_true_iff.mp (List.mem_filter.mp new).2).2
  · intro place complete
    by_cases before : problem.isComplete branch.assigned place = true
    · obtain ⟨found, success⟩ := handed.outcome place before
      exact ⟨found, (outcome_of_keeps keeps before).trans success⟩
    · obtain ⟨here, among, touched⟩ := touched_of_isComplete ordered touching value before complete
      have uncounted : place ∉ branch.counted := fun old => before (handed.counted place old)
      refine completed place (List.mem_filter.mpr ⟨List.mem_eraseDups.mpr
        (List.mem_flatMap.mpr ⟨here, among, touched⟩), Bool.and_eq_true_iff.mpr ⟨?_, complete⟩⟩)
      simpa using uncounted

theorem Relays.start : problem.Relays ⟨problem.unassigned, [], [], Quantity.zero⟩ where
  counted := fun _ none => absurd none List.not_mem_nil
  outcome := by
    intro place complete
    obtain ⟨group, -, producer, -⟩ := isComplete_iff.mp complete
    obtain ⟨candidate, held⟩ := Option.isSome_iff_exists.mp producer
    obtain ⟨here, -, held⟩ := Option.bind_eq_some_iff.mp held
    simp only [unassigned, List.getD_eq_getElem?_getD, List.getElem?_replicate] at held
    split at held <;> cases held

theorem Passes.reached (ordered : problem.Ordered)
    (touching : problem.touching = problem.order.map (touchingOf problem.groups))
    (passes : problem.Passes ahead branch failures) :
    problem.Reached ahead branch ∧ problem.Relays branch := by
  induction passes with
  | start => exact ⟨.start, .start⟩
  | skip _ taken ih => exact ⟨ih.1.skip taken, ih.2⟩
  | take _ free best ih =>
    obtain ⟨candidate, tried, placement, placed, made⟩ := exists_of_mem_choices (bestBy_mem best)
    obtain ⟨same, completed⟩ := choice_ok made
    rw [same]
    exact ⟨ih.1.extend ordered (ordered.mem_covering.mp tried) placed _,
      ih.2.after ordered touching ih.1.whole placed completed _⟩

theorem Passes.scoreOf_isOk (ordered : problem.Ordered) (formed : problem.plan.WellFormed)
    (groups : problem.groups = groupsOf problem.plan problem.order)
    (touching : problem.touching = problem.order.map (touchingOf problem.groups))
    (passes : problem.Passes [] branch failures) :
    ∃ score, problem.scoreOf (branch.assigned.filterMap id) = .ok score := by
  obtain ⟨reached, handed⟩ := passes.reached ordered touching
  have each : ∀ place ∈ List.range problem.groups.length, ∃ found,
      problem.outcome ((branch.assigned.filterMap id).map some) place = .ok found := by
    intro place listed
    rw [← reached.complete]
    exact handed.outcome place (ordered.isComplete formed groups
      (fun other within => reached.filled other within List.not_mem_nil) (List.mem_range.mp listed))
  obtain ⟨outcomes, all⟩ := exists_mapM_ok each
  exact ⟨_, bind_ok_iff.mpr ⟨outcomes, all, rfl⟩⟩

/-! ## The verdict -/

/-- An error that tells why a pass stopped at a place: a candidate for it was rejected as the error
says, or all of its candidates overlap what is placed. -/
def Blames (problem : Problem α) (branch : Branch α) (place : Nat) : OptimizeError → Prop
  | .noCompatibleChannel producer consumer =>
    ∃ candidate ∈ problem.covering.getD place [],
      problem.Rejects branch candidate ⟨producer, consumer⟩
  | .unsatisfiable uncovered => uncovered = [problem.nameAt place] ∧
    ∀ candidate ∈ problem.covering.getD place [], problem.Overlaps branch candidate
  | .internal _ => False

theorem overlaps_of_placement? (ordered : problem.Ordered)
    (known : ∀ candidate ∈ problem.candidates, ∀ id ∈ candidate.covered, id < problem.plan.size)
    {place candidate : Nat} (tried : candidate ∈ problem.covering.getD place [])
    (unplaced : problem.placement? branch candidate = none) :
    problem.Overlaps branch candidate := by
  obtain ⟨found, present, -⟩ := ordered.mem_covering.mp tried
  refine ⟨found, present, ?_⟩
  by_contra apart
  push Not at apart
  obtain ⟨places, covered⟩ : ∃ places, problem.placesOf? candidate = some places := by
    have each : List.Forall₂ (fun id place => problem.order.idxOf? id = some place) found.covered
        (found.covered.map problem.order.idxOf) := by
      rw [List.forall₂_map_right_iff, List.forall₂_same]
      intro id among
      have listed := (Plan.mem_order ordered.order).mpr
        (known found (List.mem_of_getElem? present) id among)
      rw [ordered.idxOf?_iff, List.getElem?_idxOf listed]
    exact ⟨_, by rw [placesOf?, present]; exact mapM_some_iff.mpr each⟩
  have free : ∀ other ∈ places, branch.assigned.getD other none = none := by
    intro other listed
    obtain ⟨_, present', all⟩ := placesOf?_some covered
    obtain rfl := Option.some.inj (present.symm.trans present')
    obtain ⟨id, among, index⟩ := mem_right all listed
    have unchosen := Option.not_isSome_iff_eq_none.mp (apart id among)
    rwa [chosen?, index, Option.bind_some] at unchosen
  have placed := placement?_iff.mpr ⟨found, places, _, present, place?_iff.mpr
    ⟨covered, free, rfl⟩, rfl⟩
  rw [unplaced] at placed
  cases placed

/-- The error of a pass tells why it stopped, unless all candidates for the place overlap what is
placed and some candidate for an earlier place was rejected. -/
theorem Stops.blames_iff (ordered : problem.Ordered)
    (known : ∀ candidate ∈ problem.candidates, ∀ id ∈ candidate.covered, id < problem.plan.size)
    {place : Nat} {earlier : List ChannelFailure} (stops : problem.Stops place branch earlier) :
    problem.Blames branch place
        (problem.verdict place (earlier ++ problem.rejections branch place)) ↔
      (problem.rejections branch place = [] → earlier = []) := by
  rw [verdict, List.getLast?_append]
  cases last : (problem.rejections branch place).getLast? with
  | some failure =>
    have listed := List.mem_of_getLast? last
    exact ⟨fun _ none => absurd listed (none ▸ List.not_mem_nil),
      fun _ => rejects_of_mem_rejections listed⟩
  | none =>
    have unrejected := List.getLast?_eq_none_iff.mp last
    have unplaced := List.filterMap_eq_nil_iff.mp (offers_eq_nil stops.unchosen unrejected)
    rw [Option.none_or]
    cases before : earlier.getLast? with
    | some failure =>
      constructor
      · rintro ⟨candidate, tried, placement, placed, -⟩
        rw [unplaced candidate tried] at placed
        cases placed
      · intro none
        rw [none unrejected] at before
        cases before
    | none =>
      exact ⟨fun _ _ => List.getLast?_eq_none_iff.mp before, fun _ => ⟨rfl, fun candidate tried =>
        overlaps_of_placement? ordered known tried (unplaced candidate tried)⟩⟩

/-- A greedy search that fails although every operator is covered stops at a place, with the last
rejection of the pass as its error.  That tells why it stopped there exactly if a candidate for the
place was rejected, or none was rejected before. -/
theorem blames_iff_of_solve {plan : Plan} {candidates : List (Candidate α)}
    {estimator : Estimator α} {statistics : PlanStatistics} {config : OptimizerConfig α}
    {error : OptimizeError} (built : plan.Built)
    (created : create plan candidates estimator statistics config = .ok problem)
    (known : ∀ candidate ∈ candidates, ∀ id ∈ candidate.covered, id < plan.size)
    (covered : problem.uncovered = []) (large : config.exhaustiveLimit < candidates.length)
    (failed : problem.solve = .error error) :
    (∃ place branch earlier, problem.Stops place branch earlier) ∧
      ∀ place branch earlier, problem.Stops place branch earlier →
        error = problem.verdict place (earlier ++ problem.rejections branch place) ∧
        (problem.Blames branch place error ↔
          (problem.rejections branch place = [] → earlier = [])) := by
  have ordered := ordered_of_create created
  obtain ⟨rfl, rfl, rfl, -, -, groups, touching, -⟩ := create_ok created
  rw [solve, covered, List.isEmpty_nil, Bool.not_true, if_neg Bool.false_ne_true,
    if_neg (Nat.not_le.mpr large), greedy] at failed
  constructor
  · refine (Passes.start : problem.Passes _ _ _).ends.resolve_left ?_
    rintro ⟨branch, rejected, passes⟩
    obtain ⟨score, scored⟩ := passes.scoreOf_isOk ordered built.wellFormed groups touching
    rw [passes.greedyFrom_eq, greedyFrom, ok_bind, scored] at failed
    cases failed
  · intro place branch earlier stops
    rw [stops.greedyFrom_eq] at failed
    obtain rfl := Except.error.inj failed
    exact ⟨rfl, stops.blames_iff ordered known⟩

/-! ## A rejection that is overcome -/

def guests : Plan :=
  { operators :=
      [.create 0 "people" (.collectionSource []), .create 1 "known" (.collectionSource []),
        (Operator.create 2 "grown" (.filter "name in @known")).widened "known",
        .create 3 "names" (.project ["name"]), .create 4 "out" (.sink "memory://names")]
    edges := [⟨⟨0, 0⟩, ⟨2, 0⟩⟩, ⟨⟨1, 0⟩, ⟨2, 1⟩⟩, ⟨⟨2, 0⟩, ⟨3, 0⟩⟩, ⟨⟨3, 0⟩, ⟨4, 0⟩⟩] }

theorem built_guests : guests.Built := by
  have three := ((Plan.Built.empty.add "people" (.collectionSource [])).add "known"
    (.collectionSource [])).add "grown" (.filter "name in @known")
  have wide := three.broadcast (rfl : Plan.addBroadcast _ 2 "known" = .ok (_, 1))
  have operators := (wide.add "names" (.project ["name"])).add "out" (.sink "memory://names")
  have fed := (operators.connect ⟨0, 0⟩ ⟨2, 0⟩ rfl).connect ⟨1, 0⟩ ⟨2, 1⟩ rfl
  exact (fed.connect ⟨2, 0⟩ ⟨3, 0⟩ rfl).connect ⟨3, 0⟩ ⟨4, 0⟩ rfl

def inOneForm (name : String) (matched : SubplanMatch) (form : Form) (cost : Rat) :
    Candidate Rat :=
  { id := 0, rule := 0, ruleName := name, platform := .inProcess, matched
    replacement := .single
      { name, kind := name, platform := .inProcess, epoch := 0
        inputs := matched.inputs.length, outputs := matched.outputs.length
        inputForms := fun _ => [form], outputForms := fun _ => [form]
        evaluate := fun _ _ _ _ => .error (.invalidParameters name) }
    estimates := [], profile := LoadProfile.zero, cost }

/-- The filter alone, over collections or over streams, and with the projection in one pass.  What
is broadcast cannot be handed over as a stream. -/
def guestsCandidates : List (Candidate Rat) :=
  [inOneForm "people" ⟨[0], [], [⟨0, 0⟩]⟩ .collection 1,
    inOneForm "known" ⟨[1], [], [⟨1, 0⟩]⟩ .collection 1,
    inOneForm "alone" ⟨[2], [⟨2, 0⟩, ⟨2, 1⟩], [⟨2, 0⟩]⟩ .collection 1,
    inOneForm "streaming" ⟨[2], [⟨2, 0⟩, ⟨2, 1⟩], [⟨2, 0⟩]⟩ .stream 10,
    inOneForm "fused" ⟨[2, 3], [⟨2, 0⟩, ⟨2, 1⟩], [⟨3, 0⟩]⟩ .collection 10,
    inOneForm "out" ⟨[4], [⟨4, 0⟩], []⟩ .collection 1]

def guestsProblem : Problem Rat :=
  let groups := groupsOf guests [0, 1, 2, 3, 4]
  let covering := [[0], [1], [2, 3, 4], [4], [5]]
  { plan := guests, candidates := guestsCandidates, config := ⟨4, Platform.all, .standard⟩
    order := [0, 1, 2, 3, 4], covering, groups
    touching := [0, 1, 2, 3, 4].map (touchingOf groups)
    conversionCosts := groups.map (conversionCostsOf uniformCosts .standard ⟨[]⟩)
    lowerShare := covering.map (leastShare? guestsCandidates) }

theorem guests_created : create guests guestsCandidates uniformCosts ⟨[]⟩
    ⟨4, Platform.all, .standard⟩ = .ok guestsProblem := by
  have order : guests.order = .ok [0, 1, 2, 3, 4] := by decide +kernel
  have covering : [0, 1, 2, 3, 4].map (coveringOf guestsCandidates) =
      [[0], [1], [2, 3, 4], [4], [5]] := by
    simp only [coveringOf, contains_covered, List.map_cons, List.map_nil]
    rw [List.mergeSort_of_pairwise (by decide +kernel),
      List.mergeSort_of_pairwise (by decide +kernel),
      List.mergeSort_of_pairwise (by decide +kernel),
      List.mergeSort_of_pairwise (by decide +kernel),
      List.mergeSort_of_pairwise (by decide +kernel)]
    rfl
  unfold create
  rw [order]
  simp only [Except.mapError, guestsProblem, ← covering]
  rfl

theorem guests_placesOf? (candidate : Nat) : guestsProblem.placesOf? candidate =
    (([[0], [1], [2], [2], [2, 3], [4]] : List (List Nat))[candidate]?).bind fun ids =>
      ids.mapM ([0, 1, 2, 3, 4].idxOf? ·) :=
  placesOf?_of_nodes rfl (by decide) candidate

def guestsFirst : Branch Rat := ⟨[some 0, none, none, none, none], [], [0], Quantity.zero⟩

def guestsSecond : Branch Rat := ⟨[some 0, some 1, none, none, none], [], [0, 1], Quantity.zero⟩

def guestsThird : Branch Rat :=
  ⟨[some 0, some 1, some 2, none, none], [0, 1], [0, 1, 2], Quantity.zero⟩

theorem guests_choices : guestsProblem.choices guestsSecond 2 = [⟨1, 0, guestsThird⟩,
      ⟨5, 0, ⟨[some 0, some 1, some 4, some 4, none], [0, 1, 2], [0, 1, 4], Quantity.zero⟩⟩] ∧
    guestsProblem.rejections guestsSecond 2 = [⟨"known", "grown"⟩] := by
  have offered : guestsProblem.offers guestsSecond 2 =
      [⟨2, guestsCandidates[2], [some 0, some 1, some 2, none, none], [0, 1]⟩,
        ⟨3, guestsCandidates[3], [some 0, some 1, some 3, none, none], [0, 1]⟩,
        ⟨4, guestsCandidates[4], [some 0, some 1, some 4, some 4, none], [0, 1, 2]⟩] :=
    offers_eq guests_placesOf? guestsSecond 2
  have alone : guestsProblem.addGroups [some 0, some 1, some 2, none, none] Quantity.zero [0, 1] =
      .ok 0 := by
    decide +kernel
  -- the candidate over streams is not handed over what is broadcast to it
  have streaming : guestsProblem.addGroups [some 0, some 1, some 3, none, none] Quantity.zero
      [0, 1] = .error ⟨"known", "grown"⟩ := by
    decide +kernel
  have fused : guestsProblem.addGroups [some 0, some 1, some 4, some 4, none] Quantity.zero
      [0, 1, 2] = .ok 0 := by
    decide +kernel
  have shares : share guestsCandidates[2] (guestsCandidates[2].cost + 0) = 1 ∧
      share guestsCandidates[4] (guestsCandidates[4].cost + 0) = 5 := by
    rw [share_eq, share_eq]
    decide +kernel
  constructor
  · simp only [choices, offered, choice, List.filterMap_cons, alone, streaming, fused, bind,
      Except.bind, pure, Except.pure, shares.1, shares.2]
    rfl
  · simp only [rejections, offered, rejection?, choice, List.filterMap_cons, alone, streaming,
      fused, bind, Except.bind]
    rfl

theorem guests_offers : guestsProblem.offers guestsThird 3 = [] :=
  offers_eq guests_placesOf? guestsThird 3

theorem guests_sources : guestsProblem.Passes [2, 3, 4] guestsSecond [] := by
  have shares : share guestsCandidates[0] (guestsCandidates[0].cost + Quantity.zero) = 1 ∧
      share guestsCandidates[1] (guestsCandidates[1].cost + Quantity.zero) = 1 := by
    rw [share_eq, share_eq]
    decide +kernel
  have offered : guestsProblem.offers ⟨guestsProblem.unassigned, [], [], Quantity.zero⟩ 0 =
      [⟨0, guestsCandidates[0], [some 0, none, none, none, none], []⟩] :=
    offers_eq guests_placesOf? _ 0
  have offered' : guestsProblem.offers guestsFirst 1 =
      [⟨1, guestsCandidates[1], [some 0, some 1, none, none, none], []⟩] :=
    offers_eq guests_placesOf? guestsFirst 1
  have first : guestsProblem.choices ⟨guestsProblem.unassigned, [], [], Quantity.zero⟩ 0 =
        [⟨1, 0, guestsFirst⟩] ∧
      guestsProblem.rejections ⟨guestsProblem.unassigned, [], [], Quantity.zero⟩ 0 = [] := by
    rw [← shares.1]
    exact choices_singleton offered rfl
  have second : guestsProblem.choices guestsFirst 1 = [⟨1, 0, guestsSecond⟩] ∧
      guestsProblem.rejections guestsFirst 1 = [] := by
    rw [← shares.2]
    exact choices_singleton offered' rfl
  have one : guestsProblem.Passes [1, 2, 3, 4] guestsFirst ([] ++ _) :=
    Passes.start.take rfl (by rw [first.1]; rfl)
  rw [first.2] at one
  have both : guestsProblem.Passes [2, 3, 4] guestsSecond ([] ++ _) :=
    one.take rfl (by rw [second.1]; rfl)
  rwa [second.2] at both

theorem guests_stops : guestsProblem.Stops 3 guestsThird [⟨"known", "grown"⟩] := by
  have dearer : ∀ a b : Branch Rat, Choice.better ⟨5, 0, a⟩ ⟨1, 0, b⟩ = false := by
    intro a b
    have different : sameCost (5 : Rat) 1 = false := by decide +kernel
    have more : Quantity.lt (5 : Rat) 1 = false := by decide +kernel
    rw [Choice.better, different, more]
    rfl
  have best : bestBy Choice.better (guestsProblem.choices guestsSecond 2) =
      some ⟨1, 0, guestsThird⟩ := by
    rw [guests_choices.1, bestBy, List.foldl_cons, dearer]
    rfl
  have taken := guests_sources.take rfl best
  rw [guests_choices.2] at taken
  exact ⟨⟨[4], taken⟩, rfl, by rw [choices, guests_offers]; rfl⟩

/-- The pass stops at the projection, whose only candidate overlaps the filter, and tells that a
candidate for the filter was not handed over what is broadcast to it. -/
theorem blames_iff_of_solve_guests :
    guestsProblem.solve = .error (.noCompatibleChannel "known" "grown") ∧
    guestsProblem.Stops 3 guestsThird [⟨"known", "grown"⟩] ∧
    ¬ guestsProblem.Blames guestsThird 3 (.noCompatibleChannel "known" "grown") ∧
    (guestsProblem.score? [0, 1, 4, 5]).isSome = true := by
  have covered : guestsProblem.uncovered = [] := by decide +kernel
  have unrejected : guestsProblem.rejections guestsThird 3 = [] := by
    rw [rejections, guests_offers]
    rfl
  have failed : guestsProblem.solve = .error (.noCompatibleChannel "known" "grown") := by
    rw [solve, covered, List.isEmpty_nil, Bool.not_true, if_neg Bool.false_ne_true,
      if_neg (by decide), greedy, guests_stops.greedyFrom_eq, unrejected]
    rfl
  have known : ∀ candidate ∈ guestsCandidates, ∀ id ∈ candidate.covered, id < guests.size := by
    intro candidate listed id among
    have within : ∀ candidate ∈ guestsCandidates, ∀ id ∈ candidate.matched.nodes,
        id < guests.size := by
      decide
    exact within candidate listed id (List.mem_mergeSort.mp among)
  obtain ⟨-, told⟩ := blames_iff_of_solve built_guests guests_created known covered (by decide)
    failed
  have complete : guestsProblem.assignment? [0, 1, 4, 5] = some [0, 1, 4, 4, 5] := by
    simp only [assignment?, place?, guests_placesOf?, List.foldlM]
    rfl
  have scored : (guestsProblem.scoreOf [0, 1, 4, 4, 5]).toOption.isSome = true := by
    decide +kernel
  refine ⟨failed, guests_stops, fun blames => ?_, by rwa [score?, complete, Option.bind_some]⟩
  cases (told 3 guestsThird _ guests_stops).2.mp blames unrejected

end CrossPlan.Problem
