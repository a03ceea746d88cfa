import CrossPlan.Proofs.Channel.Routing
import CrossPlan.Proofs.Selection.Exhaustive

/-!
# The exhaustive search misses nothing

The exhaustive search fails only where no selection is valid, in whatever arithmetic costs are
computed: a branch is left only once a selection is found, and the branch that a valid selection
extends is left for no other reason.

Nothing is asked of the candidates here; they need not come from rules.
-/

set_option autoImplicit false

namespace CrossPlan.Problem

open Sequence

variable {α : Type} {problem : Problem α}

/-! ## Whole candidates -/

/-- An assignment in which candidates stand at all places that they cover, or at none. -/
structure Whole (problem : Problem α) (assigned : Assignment) : Prop where
  length : assigned.length = problem.order.length
  holds : ∀ place candidate, assigned.getD place none = some candidate →
    ∃ places, problem.placesOf? candidate = some places ∧ place ∈ places ∧
      ∀ other ∈ places, assigned.getD other none = some candidate

theorem placesOf?_some {candidate : Nat} {places : List Nat}
    (covered : problem.placesOf? candidate = some places) :
    ∃ found, problem.candidates[candidate]? = some found ∧
      List.Forall₂ (fun id place => problem.order.idxOf? id = some place) found.covered places := by
  obtain ⟨found, present, all⟩ := Option.bind_eq_some_iff.mp covered
  exact ⟨found, present, mapM_some_iff.mp all⟩

theorem placesOf?_lt {candidate : Nat} {places : List Nat}
    (covered : problem.placesOf? candidate = some places) {place : Nat} (listed : place ∈ places) :
    place < problem.order.length := by
  obtain ⟨found, -, all⟩ := placesOf?_some covered
  obtain ⟨id, -, here⟩ := mem_right all listed
  exact (List.getElem?_eq_some_iff.mp (getElem?_of_idxOf? here)).1

namespace Whole

variable {assigned full : Assignment} {candidate : Nat}

theorem unassigned : problem.Whole problem.unassigned where
  length := List.length_replicate
  holds := by
    intro place candidate held
    simp only [Problem.unassigned, List.getD_eq_getElem?_getD, List.getElem?_replicate] at held
    split at held <;> cases held

theorem place (whole : problem.Whole assigned) {places : List Nat} {result : Assignment}
    (placed : problem.place? candidate assigned = some (places, result)) :
    problem.Whole result ∧ Keeps result assigned ∧
      ∀ place, result.getD place none =
        if place ∈ places then some candidate else assigned.getD place none := by
  obtain ⟨covered, free, rfl⟩ := place?_iff.mp placed
  have value := getD_fill candidate places assigned fun place listed => by
    rw [whole.length]
    exact placesOf?_lt covered listed
  have keeps : Keeps (places.foldl (fun assigned place => assigned.set place (some candidate))
      assigned) assigned := by
    intro place other held
    rw [value]
    split
    · next listed =>
      rw [free place listed] at held
      cases held
    · exact held
  refine ⟨⟨by rw [length_fill, whole.length], ?_⟩, keeps, value⟩
  intro place other held
  rw [value] at held
  split at held
  · next listed =>
    obtain rfl := Option.some.inj held
    exact ⟨places, covered, listed, fun other among => by rw [value, if_pos among]⟩
  · obtain ⟨places', covered', listed, all⟩ := whole.holds place other held
    exact ⟨places', covered', listed, fun other among => keeps _ _ (all other among)⟩

theorem foldlM (whole : problem.Whole assigned) {selection : List Nat} {result : Assignment}
    (placed : selection.foldlM (fun assigned candidate =>
      (problem.place? candidate assigned).map (·.2)) assigned = some result) :
    problem.Whole result := by
  induction selection generalizing assigned with
  | nil =>
    cases placed
    exact whole
  | cons candidate rest ih =>
    rw [List.foldlM_cons] at placed
    obtain ⟨_, mapped, later⟩ := Option.bind_eq_some_iff.mp placed
    obtain ⟨⟨places, next⟩, first, rfl⟩ := Option.map_eq_some_iff.mp mapped
    exact ih (whole.place first).1 later

theorem of_assignment? {selection full : List Nat}
    (complete : problem.assignment? selection = some full) : problem.Whole (full.map some) :=
  unassigned.foldlM (assignment?_iff.mp complete)

theorem covered_of_chosen? (whole : problem.Whole assigned) {id chosen : Nat}
    (here : problem.chosen? assigned id = some chosen) :
    ∃ candidate, problem.candidates[chosen]? = some candidate ∧ id ∈ candidate.covered ∧
      ∀ other ∈ candidate.covered, problem.chosen? assigned other = some chosen := by
  obtain ⟨place, index, held⟩ := Option.bind_eq_some_iff.mp here
  obtain ⟨places, covered, listed, all⟩ := whole.holds place chosen held
  obtain ⟨candidate, present, each⟩ := placesOf?_some covered
  obtain ⟨id', among, index'⟩ := mem_right each listed
  have same := (getElem?_of_idxOf? index').symm.trans (getElem?_of_idxOf? index)
  obtain rfl := Option.some.inj same
  refine ⟨candidate, present, among, fun other member => ?_⟩
  obtain ⟨place', listed', index'⟩ := mem_left each member
  exact Option.bind_eq_some_iff.mpr ⟨place', index', all place' listed'⟩

/-- A candidate that an assignment has at a free place of an assignment which it extends can be
placed there. -/
theorem place?_of_keeps (total : problem.Whole full) (whole : problem.Whole assigned)
    (keeps : Keeps full assigned) {place : Nat} (here : full.getD place none = some candidate)
    (free : assigned.getD place none = none) :
    ∃ places result, problem.place? candidate assigned = some (places, result) ∧
      Keeps full result := by
  obtain ⟨places, covered, listed, all⟩ := total.holds place candidate here
  have allFree : ∀ other ∈ places, assigned.getD other none = none := by
    intro other among
    cases held : assigned.getD other none with
    | none => rfl
    | some taken =>
      have same := keeps other taken held
      rw [all other among, Option.some.injEq] at same
      subst same
      obtain ⟨places', covered', -, also⟩ := whole.holds other candidate held
      obtain rfl := Option.some.inj (covered.symm.trans covered')
      rw [also place listed] at free
      cases free
  have placed := place?_iff.mpr ⟨covered, allFree, rfl⟩
  obtain ⟨-, -, value⟩ := whole.place placed
  refine ⟨places, _, placed, fun other taken held => ?_⟩
  rw [value] at held
  split at held
  · next among => exact held ▸ all other among
  · exact keeps other taken held

end Whole

/-! ## The tables of a problem -/

variable [Quantity α]

structure Ordered (problem : Problem α) : Prop where
  order : problem.plan.order = .ok problem.order
  covering : problem.covering = problem.order.map (coveringOf problem.candidates)

theorem ordered_of_create {plan : Plan} {candidates : List (Candidate α)} {estimator : Estimator α}
    {known : PlanStatistics} {config : OptimizerConfig α}
    (created : create plan candidates estimator known config = .ok problem) : problem.Ordered := by
  obtain ⟨rfl, rfl, -, order, covering, -⟩ := create_ok created
  exact ⟨order, covering⟩

namespace Ordered

variable {assigned : Assignment} {candidate place : Nat}

theorem mem_covering (ordered : problem.Ordered) : candidate ∈ problem.covering.getD place [] ↔
    problem.Covers candidate place := by
  rw [ordered.covering, List.getD_eq_getElem?_getD, List.getElem?_map, Covers]
  cases problem.order[place]? with
  | none => simp
  | some id => simp [Prepared.mem_coveringOf]

theorem idxOf?_iff (ordered : problem.Ordered) {id : Nat} :
    problem.order.idxOf? id = some place ↔ problem.order[place]? = some id :=
  Sequence.idxOf?_iff (Plan.taken_order ordered.order).nodup

theorem mem_placesOf? (ordered : problem.Ordered) {places : List Nat}
    (covered : problem.placesOf? candidate = some places) :
    place ∈ places ↔ problem.Covers candidate place := by
  obtain ⟨found, present, all⟩ := placesOf?_some covered
  constructor
  · intro listed
    obtain ⟨id, among, here⟩ := mem_right all listed
    exact ⟨found, present, id, among, getElem?_of_idxOf? here⟩
  · rintro ⟨found', present', id, among, here⟩
    obtain rfl := Option.some.inj (present.symm.trans present')
    obtain ⟨place', listed, there⟩ := mem_left all among
    obtain rfl := Option.some.inj ((ordered.idxOf?_iff.mpr here).symm.trans there)
    exact listed

theorem covers_of_holds (ordered : problem.Ordered) (whole : problem.Whole assigned)
    (held : assigned.getD place none = some candidate) : problem.Covers candidate place := by
  obtain ⟨places, covered, listed, -⟩ := whole.holds place candidate held
  exact (ordered.mem_placesOf? covered).mp listed

theorem chosen?_isSome (ordered : problem.Ordered)
    (filled : ∀ place < problem.order.length, (assigned.getD place none).isSome = true) {id : Nat}
    (known : id < problem.plan.size) : (problem.chosen? assigned id).isSome = true := by
  obtain ⟨place, here⟩ := List.mem_iff_getElem?.mp ((Plan.mem_order ordered.order).mpr known)
  rw [chosen?, ordered.idxOf?_iff.mpr here]
  exact filled place (List.getElem?_eq_some_iff.mp here).1

end Ordered

/-! ## On the way to a selection -/

namespace Reached

variable {ahead rest : List Nat} {place : Nat} {branch : Branch α}

omit [Quantity α] in
theorem whole (reached : problem.Reached ahead branch) : problem.Whole branch.assigned :=
  Whole.unassigned.foldlM reached.placed

theorem extend (reached : problem.Reached (place :: rest) branch) (ordered : problem.Ordered)
    {candidate : Nat} (covers : problem.Covers candidate place) {placement : Placement α}
    (placed : problem.placement? branch candidate = some placement) (cost : α) :
    problem.Reached rest (branch.after placement cost) := by
  obtain ⟨_, places, assigned, -, step, rfl⟩ := placement?_iff.mp placed
  obtain ⟨-, keeps, value⟩ := reached.whole.place step
  refine ⟨?_, ?_, fun other later => reached.within other (List.mem_cons_of_mem _ later)⟩
  · rw [Branch.after, List.foldlM_append, reached.placed]
    simp only [List.foldlM_cons, List.foldlM_nil, Option.bind_eq_bind, Option.bind_some,
      Option.pure_def, step, Option.map_some]
  · intro other within ahead
    by_cases same : other = place
    · have listed := (ordered.mem_placesOf? (place?_iff.mp step).1).mpr covers
      rw [Branch.after, same, value, if_pos listed]
      rfl
    · obtain ⟨taken, held⟩ := Option.isSome_iff_exists.mp
        (reached.filled other within (by simp [same, ahead]))
      rw [Branch.after, keeps other taken held]
      rfl

omit [Quantity α] in
theorem complete (reached : problem.Reached [] branch) :
    branch.assigned = (branch.assigned.filterMap id).map some :=
  eq_map_of_filled fun place within =>
    reached.filled place (reached.whole.length ▸ within) List.not_mem_nil

end Reached

/-- At a free place the candidate that a larger assignment has there is offered. -/
theorem offered_of_keeps (ordered : problem.Ordered) {full : Assignment}
    (total : problem.Whole full) {branch : Branch α} (whole : problem.Whole branch.assigned)
    (keeps : Keeps full branch.assigned) {place candidate : Nat}
    (here : full.getD place none = some candidate)
    (free : branch.assigned.getD place none = none) :
    ∃ placement, problem.placement? branch candidate = some placement ∧
      problem.Covers candidate place ∧ Keeps full placement.assigned ∧
      placement ∈ (problem.covering.getD place []).filterMap (problem.placement? branch) := by
  have covers := ordered.covers_of_holds total here
  obtain ⟨places, result, placed, kept⟩ := total.place?_of_keeps whole keeps here free
  obtain ⟨found, present, -⟩ := id covers
  have offered := placement?_iff.mpr ⟨found, places, result, present, placed, rfl⟩
  exact ⟨_, offered, covers, kept,
    List.mem_filterMap.mpr ⟨candidate, ordered.mem_covering.mpr covers, offered⟩⟩

/-! ## The exhaustive search misses nothing -/

theorem addGroups_isOk {assigned : Assignment} {places : List Nat} (start : α)
    (handed : ∀ place ∈ places, ∃ found, problem.outcome assigned place = .ok found) :
    ∃ total, problem.addGroups assigned start places = .ok total := by
  unfold addGroups
  induction places generalizing start with
  | nil => exact ⟨start, rfl⟩
  | cons place rest ih =>
    obtain ⟨found, now⟩ := handed place List.mem_cons_self
    rw [List.foldlM_cons, now]
    exact ih _ fun other later => handed other (List.mem_cons_of_mem _ later)

theorem outcome_of_scoreOf {full : List Nat} {score : Score α}
    (scored : problem.scoreOf full = .ok score) {place : Nat}
    (within : place < problem.groups.length) :
    ∃ found, problem.outcome (full.map some) place = .ok found := by
  obtain ⟨outcomes, handed, -⟩ := bind_ok_iff.mp scored
  obtain ⟨found, -, success⟩ := mem_left (mapM_ok_iff.mp handed) (List.mem_range.mpr within)
  exact ⟨found, success⟩

/-- What a placement on the way to a selection completes can be handed over. -/
theorem handed_of_keeps {full : List Nat} {score : Score α}
    (scored : problem.scoreOf full = .ok score) {branch : Branch α} {candidate : Nat}
    {placement : Placement α} (placed : problem.placement? branch candidate = some placement)
    (keeps : Keeps (full.map some) placement.assigned) :
    ∀ place ∈ placement.completed, ∃ found,
      problem.outcome placement.assigned place = .ok found := by
  obtain ⟨_, places, assigned, -, -, rfl⟩ := placement?_iff.mp placed
  intro place listed
  have done : problem.isComplete assigned place = true := by
    exact (Bool.and_eq_true_iff.mp (List.mem_filter.mp listed).2).2
  obtain ⟨_, known, -⟩ := isComplete_iff.mp done
  rw [← outcome_of_keeps keeps done]
  exact outcome_of_scoreOf scored (List.getElem?_eq_some_iff.mp known).1

namespace Search

variable {search : Search α} {branch : Branch α} {ahead rest : List Nat}

def Found (search : Search α) : Prop := search.best.isSome = true

theorem Found.finish (found : search.Found) : (search.finish problem branch).Found := by
  unfold Search.finish
  split
  · exact found
  · split
    · rfl
    · exact found

theorem Found.descend (found : search.Found) : (problem.descend ahead branch search).Found := by
  induction ahead generalizing branch search with
  | nil => exact found.finish
  | cons place rest ih =>
    rw [Problem.descend]
    split
    · exact ih found
    · split
      · exact found
      · refine foldl_keeps Found (fun placement _ search found => ?_) found
        split
        · exact found
        · split
          · exact found
          · exact ih found

theorem Found.attempt (found : search.Found) (placement : Placement α) :
    (problem.attempt rest branch search placement).Found := by
  unfold Problem.attempt
  split
  · exact found
  · split
    · exact found
    · exact found.descend

theorem found_of_excludes {bound : Option α} (excluded : search.excludes bound = true) :
    search.Found := by
  unfold excludes at excluded
  split at excluded
  · next held => exact Option.isSome_of_eq_some held
  · cases excluded

theorem found_finish {score : Score α}
    (scored : problem.scoreOf (branch.assigned.filterMap id) = .ok score) :
    (search.finish problem branch).Found := by
  unfold Search.finish
  rw [scored]
  dsimp only
  split
  · rfl
  · next late =>
    cases held : search.best with
    | none => simp [held] at late
    | some best => exact Option.isSome_of_eq_some held

end Search

/-- Searching a branch that a valid selection extends finds a selection. -/
theorem found_descend (ordered : problem.Ordered) {full : List Nat} {score : Score α}
    (total : problem.Whole (full.map some)) (scored : problem.scoreOf full = .ok score)
    {ahead : List Nat} {branch : Branch α} {search : Search α}
    (reached : problem.Reached ahead branch) (keeps : Keeps (full.map some) branch.assigned) :
    (problem.descend ahead branch search).Found := by
  induction ahead generalizing branch search with
  | nil =>
    have length : (branch.assigned.filterMap id).length = full.length := by
      rw [← List.length_map some, ← reached.complete, reached.whole.length, ← total.length,
        List.length_map]
    rw [reached.complete] at keeps
    exact Search.found_finish (eq_of_keeps length keeps ▸ scored)
  | cons place rest ih =>
    by_cases taken : (branch.assigned.getD place none).isSome = true
    · rw [descend_taken taken]
      exact ih (reached.skip taken) keeps
    · have within : place < full.length := by
        rw [← List.length_map some, total.length]
        exact reached.within place List.mem_cons_self
      have here : (full.map some).getD place none = some full[place] := by
        rw [getD_map_some, List.getElem?_eq_getElem within]
      obtain ⟨placement, placed, covers, kept, member⟩ := offered_of_keeps ordered total
        reached.whole keeps here (Option.not_isSome_iff_eq_none.mp taken)
      rw [descend_free taken]
      split
      · next none =>
        rw [none] at member
        cases member
      · refine foldl_reaches (fun _ => True) Search.Found member (fun _ _ _ _ => trivial)
          (fun other _ search _ found => found.attempt other) (fun search _ => ?_) trivial
        obtain ⟨cost, added⟩ := addGroups_isOk (branch.cost + placement.candidate.cost)
          (handed_of_keeps scored placed kept)
        have grown : problem.grow branch placement = .ok (branch.after placement cost) := by
          rw [grow, added]
          rfl
        unfold attempt
        rw [grown]
        dsimp only
        split
        · next excluded => exact Search.found_of_excludes excluded
        · exact ih (reached.extend ordered covers placed cost) kept

/-- Where the exhaustive search fails no selection is valid. -/
theorem invalid_of_exhaustive (ordered : problem.Ordered) {error : OptimizeError}
    (failed : problem.exhaustive = .error error) (selection : List Nat) :
    problem.score? selection = none := by
  by_contra valid
  obtain ⟨score, valid⟩ := Option.ne_none_iff_exists'.mp valid
  obtain ⟨full, complete, scored⟩ := score?_eq_some.mp valid
  have nothing : Keeps (full.map some) problem.unassigned := by
    intro place candidate held
    simp only [unassigned, List.getD_eq_getElem?_getD, List.getElem?_replicate] at held
    split at held <;> cases held
  have found : (problem.descend problem.places ⟨problem.unassigned, [], [], Quantity.zero⟩
      .empty).Found :=
    found_descend ordered (Whole.of_assignment? complete) scored .start nothing
  obtain ⟨best, held⟩ := Option.isSome_iff_exists.mp found
  simp only [exhaustive, held] at failed
  cases failed

theorem invalid_of_uncovered (ordered : problem.Ordered) (uncovered : problem.uncovered ≠ [])
    (selection : List Nat) : problem.score? selection = none := by
  by_contra valid
  obtain ⟨score, valid⟩ := Option.ne_none_iff_exists'.mp valid
  obtain ⟨full, complete, -⟩ := score?_eq_some.mp valid
  have total := Whole.of_assignment? complete
  refine uncovered (List.filterMap_eq_nil_iff.mpr ?_)
  rintro ⟨id, covering⟩ entry
  obtain ⟨place, found⟩ := List.mem_iff_getElem?.mp entry
  obtain ⟨at_, tried⟩ := List.getElem?_zip_eq_some.mp found
  have within : place < full.length := by
    rw [← List.length_map some, total.length]
    exact (List.getElem?_eq_some_iff.mp at_).1
  have covers := ordered.mem_covering.mpr (ordered.covers_of_holds total (by
    rw [getD_map_some, List.getElem?_eq_getElem within]))
  rw [List.getD_eq_getElem?_getD, tried, Option.getD_some] at covers
  refine if_neg ?_
  rw [List.isEmpty_iff]
  rintro rfl
  cases covers

end CrossPlan.Problem
