import CrossPlan.Proofs.Candidate
import CrossPlan.Proofs.Plan.Validity
import CrossPlan.Selection.Search

/-!
# Which candidate is chosen where

Placing candidates one after the other gives an assignment in which a place holds a candidate
exactly when the candidate was placed and covers the place.
-/

set_option autoImplicit false

namespace CrossPlan

open Sequence

namespace Problem

variable {α : Type}

/-- The tables of a problem hold what they are named for, and its candidates cover operators of the
plan, each once. -/
structure Prepared [Quantity α] (problem : Problem α) : Prop where
  order : problem.plan.order = .ok problem.order
  covering : problem.covering = problem.order.map (coveringOf problem.candidates)
  groups : problem.groups = groupsOf problem.plan problem.order
  touching : problem.touching = problem.order.map (touchingOf problem.groups)
  costs : problem.conversionCosts.length = problem.groups.length
  lowerShare : problem.lowerShare = problem.covering.map (leastShare? problem.candidates)
  nonempty : ∀ candidate ∈ problem.candidates, candidate.covered ≠ []
  distinct : ∀ candidate ∈ problem.candidates, candidate.covered.Nodup
  within : ∀ candidate ∈ problem.candidates, ∀ id ∈ candidate.covered, id ∈ problem.order

theorem create_ok [Quantity α] {plan : Plan} {candidates : List (Candidate α)}
    {estimator : Estimator α} {known : PlanStatistics} {config : OptimizerConfig α}
    {problem : Problem α} (success : create plan candidates estimator known config = .ok problem) :
    problem.plan = plan ∧ problem.candidates = candidates ∧ problem.config = config ∧
      plan.order = .ok problem.order ∧
      problem.covering = problem.order.map (coveringOf candidates) ∧
      problem.groups = groupsOf plan problem.order ∧
      problem.touching = problem.order.map (touchingOf problem.groups) ∧
      problem.conversionCosts.length = problem.groups.length ∧
      problem.lowerShare = problem.covering.map (leastShare? candidates) := by
  obtain ⟨order, ordered, success⟩ := bind_ok_iff.mp success
  cases success
  exact ⟨rfl, rfl, rfl, mapError_ok_iff.mp ordered, rfl, rfl, rfl, List.length_map _, rfl⟩

theorem create_isOk [Quantity α] {plan : Plan} {order : List Nat}
    (ordered : plan.order = .ok order) (candidates : List (Candidate α)) (estimator : Estimator α)
    (known : PlanStatistics) (config : OptimizerConfig α) :
    ∃ problem, create plan candidates estimator known config = .ok problem :=
  ⟨_, bind_ok_iff.mpr ⟨order, mapError_ok_iff.mpr ordered, rfl⟩⟩

/-- Problems over the candidates of a registry with accepted patterns are prepared. -/
theorem prepared_of_create [Quantity α] {registry : RuleRegistry α} {plan : Plan}
    {estimator : Estimator α} {weights : CostWeights α} {known : PlanStatistics} {epoch : Nat}
    {candidates : List (Candidate α)}
    (accepted : ∀ rule ∈ registry.rules, rule.pattern.Accepted) (built : plan.Built)
    (matched : registry.candidates estimator weights plan known epoch = .ok candidates)
    {sizing : Estimator α} {statistics : PlanStatistics} {config : OptimizerConfig α}
    {problem : Problem α}
    (created : create plan candidates sizing statistics config = .ok problem) :
    problem.Prepared := by
  obtain ⟨rfl, rfl, -, order, covering, groups, touching, costs, lowerShare⟩ := create_ok created
  have embedded : ∀ candidate ∈ problem.candidates, ∃ pattern : Pattern, pattern.Registered ∧
      ∃ image, pattern.Embeds problem.plan image ∧
        candidate.matched = pattern.occurrence problem.plan image := by
    intro candidate present
    obtain ⟨rule, operators, derived⟩ := RuleRegistry.derived_of_mem matched present
    have known := accepted rule (List.mem_of_getElem? derived.registered)
    exact ⟨rule.pattern, known.registered, derived.embeds known built.wellFormed⟩
  refine ⟨order, covering, groups, touching, costs, lowerShare, ?_, ?_, ?_⟩
  · intro candidate present
    obtain ⟨pattern, registered, image, embeds, same⟩ := embedded candidate present
    rw [Candidate.covered, same]
    exact Pattern.Embeds.covered_ne_nil registered
  · intro candidate present
    obtain ⟨pattern, registered, image, embeds, same⟩ := embedded candidate present
    rw [Candidate.covered, same]
    exact embeds.nodup_covered
  · intro candidate present id covered
    obtain ⟨pattern, registered, image, embeds, same⟩ := embedded candidate present
    rw [Candidate.covered, same] at covered
    exact (Plan.mem_order order).mpr
      (embeds.matched_lt (Pattern.Embeds.mem_covered.mp covered))

def Covers (problem : Problem α) (candidate place : Nat) : Prop :=
  ∃ found, problem.candidates[candidate]? = some found ∧
    ∃ id ∈ found.covered, problem.order[place]? = some id

/-- An assignment that placing candidates leads to. -/
structure Fills (problem : Problem α) (assigned : Assignment) (chosen : List Nat) : Prop where
  length : assigned.length = problem.order.length
  holds : ∀ place candidate, assigned.getD place none = some candidate ↔
    candidate ∈ chosen ∧ problem.Covers candidate place
  known : ∀ candidate ∈ chosen, candidate < problem.candidates.length
  distinct : chosen.Nodup

def Keeps (full assigned : Assignment) : Prop :=
  ∀ place candidate, assigned.getD place none = some candidate →
    full.getD place none = some candidate

namespace Prepared

variable [Quantity α] {problem : Problem α}

theorem nodup_order (prepared : problem.Prepared) : problem.order.Nodup :=
  (Plan.taken_order prepared.order).nodup

theorem idxOf?_iff (prepared : problem.Prepared) {id place : Nat} :
    problem.order.idxOf? id = some place ↔ problem.order[place]? = some id :=
  Sequence.idxOf?_iff prepared.nodup_order

omit [Quantity α] in
theorem covers_lt {candidate place : Nat} (covers : problem.Covers candidate place) :
    candidate < problem.candidates.length ∧ place < problem.order.length := by
  obtain ⟨_, found, _, _, at_⟩ := covers
  exact ⟨(List.getElem?_eq_some_iff.mp found).1, (List.getElem?_eq_some_iff.mp at_).1⟩

theorem placesOf? (prepared : problem.Prepared) {candidate : Nat} {found : Candidate α}
    (present : problem.candidates[candidate]? = some found) :
    ∃ places, problem.placesOf? candidate = some places ∧ places.Nodup ∧
      places.length = found.covered.length ∧
      ∀ place, place ∈ places ↔ problem.Covers candidate place := by
  have member := List.mem_of_getElem? present
  have listed := prepared.within found member
  have each : List.Forall₂ (fun id place => problem.order.idxOf? id = some place) found.covered
      (found.covered.map problem.order.idxOf) := by
    rw [List.forall₂_map_right_iff, List.forall₂_same]
    intro id covered
    rw [prepared.idxOf?_iff, List.getElem?_idxOf (listed id covered)]
  refine ⟨found.covered.map problem.order.idxOf, ?_, ?_, List.length_map _, ?_⟩
  · rw [Problem.placesOf?, present]
    exact mapM_some_iff.mpr each
  · refine (prepared.distinct found member).map_on fun a first b _ same => ?_
    exact (List.idxOf_inj (listed a first)).mp same
  · intro place
    rw [List.mem_map]
    constructor
    · rintro ⟨id, covered, rfl⟩
      exact ⟨found, present, id, covered, List.getElem?_idxOf (listed id covered)⟩
    · rintro ⟨other, present', id, covered, here⟩
      rw [present, Option.some.injEq] at present'
      subst present'
      refine ⟨id, covered, ?_⟩
      obtain ⟨within, rfl⟩ := List.getElem?_eq_some_iff.mp here
      exact prepared.nodup_order.idxOf_getElem place within

theorem covers_some (prepared : problem.Prepared) {candidate : Nat}
    (known : candidate < problem.candidates.length) : ∃ place, problem.Covers candidate place := by
  obtain ⟨places, -, -, length, covers⟩ := prepared.placesOf? (List.getElem?_eq_getElem known)
  have nonempty := prepared.nonempty _ (List.getElem_mem known)
  obtain ⟨place, rest, rfl⟩ := List.exists_cons_of_length_pos
    (length ▸ List.length_pos_iff.mpr nonempty)
  exact ⟨place, (covers place).mp List.mem_cons_self⟩

theorem mem_coveringOf {candidates : List (Candidate α)} {id candidate : Nat} :
    candidate ∈ coveringOf candidates id ↔
      ∃ found, candidates[candidate]? = some found ∧ id ∈ found.covered := by
  simp only [coveringOf, List.mem_map, List.mem_mergeSort, List.mem_filter,
    List.mem_zipIdx_iff_getElem?, List.contains_iff_mem]
  constructor
  · rintro ⟨⟨found, place⟩, ⟨present, covered⟩, rfl⟩
    exact ⟨found, present, covered⟩
  · rintro ⟨found, present, covered⟩
    exact ⟨(found, candidate), ⟨present, covered⟩, rfl⟩

theorem mem_covering (prepared : problem.Prepared) {candidate place : Nat} :
    candidate ∈ problem.covering.getD place [] ↔ problem.Covers candidate place := by
  rw [prepared.covering, List.getD_eq_getElem?_getD, List.getElem?_map, Covers]
  cases problem.order[place]? with
  | none => simp
  | some id => simp [mem_coveringOf]

end Prepared

/-! ## Placing a candidate -/

theorem getD_fill (candidate : Nat) (places : List Nat) (assigned : Assignment)
    (within : ∀ place ∈ places, place < assigned.length) (place : Nat) :
    (places.foldl (fun assigned place => assigned.set place (some candidate)) assigned).getD place
      none = if place ∈ places then some candidate else assigned.getD place none := by
  rw [List.getD_eq_getElem?_getD, getElem?_foldl_set]
  split
  · next listed =>
    rw [List.getElem?_eq_getElem (within place listed)]
    rfl
  · rw [List.getD_eq_getElem?_getD]

theorem length_fill {candidate : Nat} (places : List Nat) (assigned : Assignment) :
    (places.foldl (fun assigned place => assigned.set place (some candidate)) assigned).length =
      assigned.length :=
  length_foldl_set _ _ _

theorem place?_iff {problem : Problem α} {candidate : Nat} {assigned result : Assignment}
    {places : List Nat} :
    problem.place? candidate assigned = some (places, result) ↔
      problem.placesOf? candidate = some places ∧
        (∀ place ∈ places, assigned.getD place none = none) ∧
        result = places.foldl (fun assigned place => assigned.set place (some candidate))
          assigned := by
  rw [place?, Option.bind_eq_some_iff]
  constructor
  · rintro ⟨found, covered, success⟩
    split at success
    · cases success
    · next free =>
      cases success
      refine ⟨covered, fun place listed => ?_, rfl⟩
      rw [← Option.not_isSome_iff_eq_none]
      exact fun taken => free (List.any_eq_true.mpr ⟨place, listed, taken⟩)
  · rintro ⟨covered, free, rfl⟩
    refine ⟨places, covered, if_neg ?_⟩
    rw [List.any_eq_true]
    rintro ⟨place, listed, taken⟩
    rw [free place listed] at taken
    cases taken

namespace Fills

variable [Quantity α] {problem : Problem α} {assigned full : Assignment}
  {chosen selection : List Nat}

omit [Quantity α] in
theorem unassigned : problem.Fills problem.unassigned [] where
  length := List.length_replicate
  holds := by
    intro place candidate
    simp only [Problem.unassigned, List.getD_eq_getElem?_getD, List.getElem?_replicate,
      List.not_mem_nil, false_and, iff_false]
    split <;> simp
  known := by simp
  distinct := List.nodup_nil

omit [Quantity α] in
theorem getD_of_covers (fills : problem.Fills assigned chosen)
    {candidate place other : Nat} (here : assigned.getD place none = some candidate)
    (covers : problem.Covers candidate other) : assigned.getD other none = some candidate :=
  (fills.holds other candidate).mpr ⟨((fills.holds place candidate).mp here).1, covers⟩

/-- Placing a candidate adds it to those that were placed. -/
theorem place (prepared : problem.Prepared) (fills : problem.Fills assigned chosen)
    {candidate : Nat} {places : List Nat} {result : Assignment}
    (placed : problem.place? candidate assigned = some (places, result)) :
    problem.Fills result (chosen ++ [candidate]) ∧ Keeps result assigned ∧
      (∀ place, place ∈ places ↔ problem.Covers candidate place) ∧
      (∀ place ∈ places, assigned.getD place none = none) ∧
      ∀ place, result.getD place none =
        if place ∈ places then some candidate else assigned.getD place none := by
  obtain ⟨found, free, rfl⟩ := place?_iff.mp placed
  have known : candidate < problem.candidates.length := by
    rw [Problem.placesOf?, Option.bind_eq_some_iff] at found
    obtain ⟨_, present, _⟩ := found
    exact (List.getElem?_eq_some_iff.mp present).1
  obtain ⟨places', found', -, -, covers⟩ := prepared.placesOf? (List.getElem?_eq_getElem known)
  obtain rfl := Option.some.inj (found.symm.trans found')
  have value := getD_fill candidate places assigned fun place listed => by
    rw [fills.length]
    exact (Prepared.covers_lt ((covers place).mp listed)).2
  have fresh : candidate ∉ chosen := by
    intro old
    obtain ⟨place, covered⟩ := prepared.covers_some known
    have taken := (fills.holds place candidate).mpr ⟨old, covered⟩
    rw [free place ((covers place).mpr covered)] at taken
    cases taken
  refine ⟨⟨?_, ?_, ?_, ?_⟩, ?_, covers, free, value⟩
  · rw [length_fill, fills.length]
  · intro place other
    rw [value, List.mem_append, List.mem_singleton]
    by_cases listed : place ∈ places
    · rw [if_pos listed, Option.some.injEq]
      constructor
      · rintro rfl
        exact ⟨Or.inr rfl, (covers place).mp listed⟩
      · rintro ⟨old | rfl, covered⟩
        · have taken := (fills.holds place other).mpr ⟨old, covered⟩
          rw [free place listed] at taken
          cases taken
        · rfl
    · rw [if_neg listed, fills.holds]
      constructor
      · exact fun ⟨old, covered⟩ => ⟨Or.inl old, covered⟩
      · rintro ⟨old | rfl, covered⟩
        · exact ⟨old, covered⟩
        · exact absurd ((covers place).mpr covered) listed
  · intro other listed
    rw [List.mem_append, List.mem_singleton] at listed
    rcases listed with old | rfl
    · exact fills.known other old
    · exact known
  · rw [List.nodup_append]
    refine ⟨fills.distinct, List.nodup_singleton _, ?_⟩
    intro a old b new same
    rw [List.mem_singleton] at new
    subst new
    subst same
    exact fresh old
  · intro place other held
    rw [value]
    split
    · next listed =>
      rw [free place listed] at held
      cases held
    · exact held

theorem foldlM (prepared : problem.Prepared) (fills : problem.Fills assigned chosen)
    {result : Assignment}
    (placed : selection.foldlM (fun assigned candidate =>
      (problem.place? candidate assigned).map (·.2)) assigned = some result) :
    problem.Fills result (chosen ++ selection) := by
  induction selection generalizing assigned chosen with
  | nil =>
    cases placed
    rwa [List.append_nil]
  | cons candidate rest ih =>
    rw [List.foldlM_cons] at placed
    obtain ⟨_, mapped, later⟩ := Option.bind_eq_some_iff.mp placed
    obtain ⟨⟨places, next⟩, first, rfl⟩ := Option.map_eq_some_iff.mp mapped
    have done := ih (fills.place prepared first).1 later
    rwa [List.append_assoc, List.singleton_append] at done

theorem place?_of_full (prepared : problem.Prepared) (whole : problem.Fills full selection)
    (fills : problem.Fills assigned chosen) (keeps : Keeps full assigned) {candidate place : Nat}
    (here : full.getD place none = some candidate) (free : assigned.getD place none = none) :
    ∃ places result, problem.place? candidate assigned = some (places, result) ∧
      Keeps full result := by
  obtain ⟨listed, covers⟩ := (whole.holds place candidate).mp here
  obtain ⟨places, found, -, -, covered⟩ :=
    prepared.placesOf? (List.getElem?_eq_getElem (Prepared.covers_lt covers).1)
  have allFree : ∀ other ∈ places, assigned.getD other none = none := by
    intro other member
    cases held : assigned.getD other none with
    | none => rfl
    | some taken =>
      have same := (whole.holds other candidate).mpr ⟨listed, (covered other).mp member⟩
      rw [keeps other taken held, Option.some.injEq] at same
      subst same
      rw [fills.getD_of_covers held covers] at free
      cases free
  have placed := place?_iff.mpr ⟨found, allFree, rfl⟩
  refine ⟨places, _, placed, ?_⟩
  obtain ⟨-, -, -, -, value⟩ := fills.place prepared placed
  intro other taken held
  rw [value] at held
  split at held
  · next member =>
    rw [← Option.some.inj held]
    exact (whole.holds other candidate).mpr ⟨listed, (covered other).mp member⟩
  · exact keeps other taken held

end Fills

/-! ## Complete assignments -/

theorem assignment?_iff {problem : Problem α} {selection full : List Nat} :
    problem.assignment? selection = some full ↔
      selection.foldlM (fun assigned candidate =>
        (problem.place? candidate assigned).map (·.2)) problem.unassigned =
          some (full.map some) := by
  simp only [assignment?, Option.bind_eq_bind, Option.bind_eq_some_iff]
  constructor
  · rintro ⟨assigned, placed, complete⟩
    have all := mapM_some_iff.mp complete
    rw [placed, Option.some.injEq]
    exact List.forall₂_eq_eq_eq ▸ (List.forall₂_map_right_iff.mpr all)
  · intro placed
    refine ⟨_, placed, mapM_some_iff.mpr ?_⟩
    rw [List.forall₂_map_left_iff, List.forall₂_same]
    exact fun _ _ => rfl

theorem score?_eq_some [Quantity α] {problem : Problem α} {selection : List Nat} {score : Score α} :
    problem.score? selection = some score ↔
      ∃ full, problem.assignment? selection = some full ∧ problem.scoreOf full = .ok score := by
  simp only [score?, Option.bind_eq_some_iff]
  refine exists_congr fun full => and_congr_right fun _ => ?_
  cases problem.scoreOf full <;> simp [Except.toOption]

theorem fills_of_assignment? [Quantity α] {problem : Problem α} (prepared : problem.Prepared)
    {selection full : List Nat} (success : problem.assignment? selection = some full) :
    problem.Fills (full.map some) selection := by
  have fills := Fills.unassigned.foldlM prepared (assignment?_iff.mp success)
  rwa [List.nil_append] at fills

theorem eq_map_of_filled {assigned : Assignment}
    (filled : ∀ place < assigned.length, (assigned.getD place none).isSome = true) :
    assigned = (assigned.filterMap id).map some := by
  induction assigned with
  | nil => rfl
  | cons first rest ih =>
    cases first with
    | none => simpa using filled 0 (by simp)
    | some candidate =>
      have later := ih fun place within => filled (place + 1) (by simpa using within)
      exact congrArg (some candidate :: ·) later

theorem getD_map_some (full : List Nat) (place : Nat) :
    (full.map some).getD place none = full[place]? := by
  rw [List.getD_eq_getElem?_getD, List.getElem?_map]
  cases full[place]? <;> rfl

theorem eq_of_keeps {found full : List Nat} (length : found.length = full.length)
    (keeps : Keeps (full.map some) (found.map some)) : found = full := by
  refine List.ext_getElem length fun place within within' => ?_
  have kept := keeps place found[place] (by
    rw [getD_map_some, List.getElem?_eq_getElem within])
  rw [getD_map_some, List.getElem?_eq_getElem within', Option.some.injEq] at kept
  exact kept.symm

/-- The candidates in a complete assignment are those that were placed. -/
theorem Fills.used_perm [Quantity α] {problem : Problem α} (prepared : problem.Prepared)
    {full selection : List Nat} (fills : problem.Fills (full.map some) selection) :
    ((List.range problem.candidates.length).filter full.contains).Perm selection := by
  refine (List.perm_ext_iff_of_nodup (List.nodup_range.filter _) fills.distinct).mpr ?_
  intro candidate
  rw [List.mem_filter, List.mem_range, List.contains_iff_mem]
  constructor
  · rintro ⟨-, used⟩
    obtain ⟨place, within, rfl⟩ := List.mem_iff_getElem.mp used
    refine ((fills.holds place _).mp ?_).1
    rw [getD_map_some, List.getElem?_eq_getElem within]
  · intro listed
    have known := fills.known candidate listed
    obtain ⟨place, covers⟩ := prepared.covers_some known
    have held := (fills.holds place candidate).mpr ⟨listed, covers⟩
    rw [getD_map_some] at held
    exact ⟨known, List.mem_of_getElem? held⟩

end Problem

end CrossPlan
