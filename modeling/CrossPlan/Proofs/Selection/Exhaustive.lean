import CrossPlan.Proofs.Selection.Cost
import Mathlib.Data.List.Sections
import Mathlib.Data.Prod.Lex

/-!
# Branch and bound is exact

In exact arithmetic, and where costs that count as the same are the same, the exhaustive search
returns the least of all valid selections, and fails only where there is none.
-/

set_option autoImplicit false

namespace CrossPlan

open Sequence

/-! ## The order of scores -/

theorem compare_list_eq {a b : List Nat} : compare a b = .eq ↔ a = b := by
  induction a generalizing b with
  | nil => cases b <;> simp
  | cons x xs ih =>
    cases b with
    | nil => simp
    | cons y ys =>
      rw [List.compare_eq_compareLex, List.compareLex_cons_cons, Ordering.then_eq_eq,
        ← List.compare_eq_compareLex, ih, List.cons.injEq, Nat.compare_eq_eq]

theorem compare_list_lt {a b : List Nat} : compare a b = .lt ↔ a < b := by
  induction a generalizing b with
  | nil => cases b <;> simp
  | cons x xs ih =>
    cases b with
    | nil => simp
    | cons y ys =>
      rw [List.compare_eq_compareLex, List.compareLex_cons_cons, Ordering.then_eq_lt,
        ← List.compare_eq_compareLex, ih, List.cons_lt_cons_iff, Nat.compare_eq_eq,
        Nat.compare_eq_lt]

theorem sameCost_self (cost : Rat) : sameCost cost cost = true := by
  have size_zero : Quantity.size (cost - cost) = 0 := by
    rw [sub_self]
    rfl
  have digits : (0 : Rat) ≤ Quantity.ofDecimal 1 9 := by
    rw [Quantity.ofDecimal_rat]
    positivity
  have size : (0 : Rat) ≤ Quantity.larger
      (Quantity.larger (Quantity.size cost) (Quantity.size cost)) Quantity.one := by
    rw [Quantity.larger_rat]
    exact le_max_of_le_right zero_le_one
  rw [sameCost, Quantity.le_rat]
  exact size_zero.trans_le (mul_nonneg digits size)

/-- Scores in the order of cost, links across platforms, ranks of platforms and candidates. -/
def Score.key (score : Score Rat) : Rat ×ₗ Nat ×ₗ List Nat ×ₗ List Nat :=
  toLex (score.cost, toLex (score.crossLinks, toLex (score.ranks, score.candidates)))

theorem Score.order_lt_iff {a b : Score Rat}
    (exact : sameCost a.cost b.cost = true → a.cost = b.cost) :
    a.order b = .lt ↔ a.key < b.key := by
  simp only [key, Prod.Lex.toLex_lt_toLex, order]
  split
  · next same =>
    simp only [Ordering.then_eq_lt, Ordering.then_eq_eq, Nat.compare_eq_lt, Nat.compare_eq_eq,
      compare_list_lt, compare_list_eq, exact same, lt_irrefl, true_and, false_or]
    tauto
  · next different =>
    rw [Quantity.rank_rat_lt]
    refine ⟨Or.inl, fun either => either.resolve_right ?_⟩
    rintro ⟨same, -⟩
    exact different (same ▸ sameCost_self a.cost)

namespace Problem

variable {problem : Problem Rat}

/-- Costs of valid selections that count as the same are the same. -/
def Separated (problem : Problem Rat) : Prop :=
  ∀ first second a b, problem.score? first = some a → problem.score? second = some b →
    sameCost a.cost b.cost = true → a.cost = b.cost

def Search.AtMost (search : Search Rat) (score : Score Rat) : Prop :=
  ∃ best, search.best = some best ∧ best.score.key ≤ score.key

/-! ## What is found is kept or bettered -/

variable {branch : Branch Rat} {search : Search Rat} {score : Score Rat} {ahead rest : List Nat}

theorem Search.AtMost.finish (separated : problem.Separated) (prepared : problem.Prepared)
    (reached : problem.Reached [] branch) (sound : search.Sound problem)
    (found : search.AtMost score) : (search.finish problem branch).AtMost score := by
  obtain ⟨best, held, early⟩ := found
  unfold Search.finish
  split
  · exact ⟨best, held, early⟩
  · next own scored =>
    rw [held]
    dsimp only [Option.all_some]
    split
    · next before =>
      have less := (Score.order_lt_iff (separated _ _ _ _ (reached.score? prepared scored)
        (sound best held))).mp (beq_iff_eq.mp before)
      exact ⟨_, rfl, less.le.trans early⟩
    · exact ⟨best, held, early⟩

theorem Search.atMost_finish (separated : problem.Separated) (prepared : problem.Prepared)
    (reached : problem.Reached [] branch) (sound : search.Sound problem)
    (scored : problem.scoreOf (branch.assigned.filterMap id) = .ok score) :
    (search.finish problem branch).AtMost score := by
  unfold Search.finish
  rw [scored]
  dsimp only
  split
  · exact ⟨_, rfl, le_rfl⟩
  · next late =>
    cases held : search.best with
    | none => simp [held] at late
    | some best =>
      refine ⟨best, held, not_lt.mp fun less => late ?_⟩
      have before := (Score.order_lt_iff (separated _ _ _ _ (reached.score? prepared scored)
        (sound best held))).mpr less
      rw [held, Option.all_some, before]
      rfl

/-- What a placement leads to: a branch that was reached, and a search that is sound. -/
theorem attempt_keeps (goal : Search Rat → Prop) (prepared : problem.Prepared) {place : Nat}
    (reached : problem.Reached (place :: rest) branch) {placement : Placement Rat}
    (offered : placement ∈
      (problem.covering.getD place []).filterMap (problem.placement? branch))
    (failed : ∀ search failure, goal search → goal { search with failure := some failure })
    (descends : ∀ next search, problem.Reached rest next → search.Sound problem → goal search →
      goal (problem.descend rest next search))
    (sound : search.Sound problem) (held : goal search) :
    goal (problem.attempt rest branch search placement) := by
  obtain ⟨candidate, covers, placed⟩ := List.mem_filterMap.mp offered
  unfold attempt
  split
  · exact failed search _ held
  · next next grown =>
    obtain ⟨cost, rfl, -⟩ := grow_ok grown
    split
    · exact held
    · exact descends _ _ (reached.after prepared (prepared.mem_covering.mp covers) placed cost)
        sound held

theorem sound_attempt (prepared : problem.Prepared) {place : Nat}
    (reached : problem.Reached (place :: rest) branch) {placement : Placement Rat}
    (offered : placement ∈
      (problem.covering.getD place []).filterMap (problem.placement? branch))
    (sound : search.Sound problem) : (problem.attempt rest branch search placement).Sound problem :=
  attempt_keeps (Search.Sound problem) prepared reached offered (fun _ _ held => held)
    (fun _ _ reached sound _ => sound_descend prepared reached sound) sound sound

theorem Search.AtMost.descend (separated : problem.Separated) (prepared : problem.Prepared)
    (reached : problem.Reached ahead branch) (sound : search.Sound problem)
    (found : search.AtMost score) : (problem.descend ahead branch search).AtMost score := by
  induction ahead generalizing branch search with
  | nil => exact found.finish separated prepared reached sound
  | cons place rest ih =>
    by_cases taken : (branch.assigned.getD place none).isSome = true
    · rw [descend_taken taken]
      exact ih (reached.skip taken) sound found
    · rw [descend_free taken]
      split
      · exact found
      · refine (foldl_keeps (fun search : Search Rat =>
          search.Sound problem ∧ search.AtMost score) ?_ ⟨sound, found⟩).2
        rintro placement offered search ⟨sound, found⟩
        exact ⟨sound_attempt prepared reached offered sound,
          attempt_keeps (Search.AtMost · score) prepared reached offered (fun _ _ held => held)
            (fun _ _ reached sound held => ih reached sound held) sound found⟩

/-! ## No selection is missed -/

/-- A branch that is left holds no selection before the best that is found. -/
theorem Search.atMost_of_excludes (prepared : problem.Prepared) {chosen selection full : List Nat}
    (fills : problem.Fills branch.assigned chosen) (priced : problem.Priced branch)
    (complete : problem.assignment? selection = some full)
    (keeps : Keeps (full.map some) branch.assigned)
    (scored : problem.scoreOf full = .ok score)
    (excluded : search.excludes (problem.bound? branch) = true) : search.AtMost score := by
  unfold Search.excludes at excluded
  split at excluded
  · next best bound held bounded =>
    rw [Bool.and_eq_true, Quantity.lt_rat] at excluded
    have below := bound?_le prepared fills priced complete keeps scored bounded
    refine ⟨best, held, le_of_lt ?_⟩
    exact Prod.Lex.toLex_lt_toLex.mpr (Or.inl (excluded.1.trans_le below))
  · cases excluded

theorem grow_of_keeps (prepared : problem.Prepared) {selection full : List Nat}
    (complete : problem.assignment? selection = some full)
    (scored : problem.scoreOf full = .ok score) {candidate : Nat} {placement : Placement Rat}
    (placed : problem.placement? branch candidate = some placement)
    (keeps : Keeps (full.map some) placement.assigned) :
    ∃ next, problem.grow branch placement = .ok next ∧ next.assigned = placement.assigned := by
  obtain ⟨handed, -⟩ := cost_of_score? prepared complete scored
  obtain ⟨found, places, assigned, -, -, rfl⟩ := placement?_iff.mp placed
  have added : ∃ cost, problem.addGroups assigned (branch.cost + found.cost)
      (problem.completed assigned branch.counted places) = .ok cost := by
    refine ⟨_, addGroups_ok.mpr ⟨fun group listed => ?_, rfl⟩⟩
    obtain ⟨-, -, done⟩ := completed_iff.mp listed
    obtain ⟨_, found, -⟩ := isComplete_iff.mp done
    rw [← outcome_of_keeps keeps done]
    exact handed group (List.getElem?_eq_some_iff.mp found).1
  obtain ⟨cost, added⟩ := added
  exact ⟨_, by rw [grow, added]; rfl, rfl⟩

/-- Searching a branch leads to the score of each valid selection that keeps what the branch holds,
or to an earlier one. -/
theorem atMost_descend (separated : problem.Separated) (prepared : problem.Prepared)
    {selection full : List Nat} (complete : problem.assignment? selection = some full)
    (scored : problem.scoreOf full = .ok score) (reached : problem.Reached ahead branch)
    (priced : problem.Priced branch) (keeps : Keeps (full.map some) branch.assigned)
    (sound : search.Sound problem) : (problem.descend ahead branch search).AtMost score := by
  have whole := fills_of_assignment? prepared complete
  induction ahead generalizing branch search with
  | nil =>
    have filled : branch.assigned = (branch.assigned.filterMap id).map some :=
      (eq_map_of_filled fun place within =>
        reached.filled place ((reached.fills prepared).length ▸ within) List.not_mem_nil)
    have length : (branch.assigned.filterMap id).length = full.length := by
      rw [← List.length_map some, ← filled, (reached.fills prepared).length, ← whole.length,
        List.length_map]
    rw [filled] at keeps
    exact Search.atMost_finish separated prepared reached sound
      (eq_of_keeps length keeps ▸ scored)
  | cons place rest ih =>
    by_cases taken : (branch.assigned.getD place none).isSome = true
    · rw [descend_taken taken]
      exact ih (reached.skip taken) priced keeps sound
    · rw [descend_free taken]
      have within : place < full.length := by
        rw [← List.length_map some, whole.length]
        exact reached.within place List.mem_cons_self
      have here : (full.map some).getD place none = some full[place] := by
        rw [getD_map_some, List.getElem?_eq_getElem within]
      -- the candidate that the selection has at the place is among the placements
      have covers := ((whole.holds _ _).mp here).2
      obtain ⟨places, assigned, placed, kept⟩ := whole.place?_of_full prepared
        (reached.fills prepared) keeps here (Option.not_isSome_iff_eq_none.mp taken)
      have offered := placement?_iff.mpr ⟨_, places, assigned,
        List.getElem?_eq_getElem (Prepared.covers_lt covers).1, placed, rfl⟩
      have member := List.mem_filterMap.mpr
        ⟨full[place], prepared.mem_covering.mpr covers, offered⟩
      split
      · next none =>
        rw [none] at member
        cases member
      · refine foldl_reaches (fun search : Search Rat => search.Sound problem)
          (fun search : Search Rat => search.AtMost score) member ?_ ?_ ?_ sound
        · exact fun other listed search sound => sound_attempt prepared reached listed sound
        · exact fun other listed search sound found => attempt_keeps (Search.AtMost · score)
            prepared reached listed (fun _ _ held => held) (fun _ _ reached sound held =>
              Search.AtMost.descend separated prepared reached sound held) sound found
        · intro search sound
          obtain ⟨next, grown, same⟩ := grow_of_keeps prepared complete scored offered kept
          have priced := priced.grow prepared (reached.fills prepared) offered grown
          have reached : problem.Reached rest next := by
            obtain ⟨cost, rfl, -⟩ := grow_ok grown
            exact reached.after prepared covers offered cost
          have keeps : Keeps (full.map some) next.assigned := same ▸ kept
          unfold attempt
          rw [grown]
          dsimp only
          split
          · next excluded =>
            exact Search.atMost_of_excludes prepared (reached.fills prepared) priced complete keeps
              scored excluded
          · exact ih reached priced keeps sound

/-! ## Why nothing is found -/

def Search.Settled (search : Search Rat) : Prop :=
  search.best.isSome = true ∨ search.failure.isSome = true ∨ search.stuck.isSome = true

theorem Search.settled_finish : (search.finish problem branch).Settled := by
  unfold Search.finish
  split
  · exact Or.inr (Or.inl rfl)
  · split
    · exact Or.inl rfl
    · next late =>
      cases held : search.best with
      | none => simp [held] at late
      | some best => exact Or.inl (by rw [held]; rfl)

theorem settled_descend : (problem.descend ahead branch search).Settled := by
  induction ahead generalizing branch search with
  | nil => exact Search.settled_finish
  | cons place rest ih =>
    by_cases taken : (branch.assigned.getD place none).isSome = true
    · rw [descend_taken taken]
      exact ih
    · rw [descend_free taken]
      have attempted : ∀ placement search,
          (problem.attempt rest branch search placement).Settled := by
        intro placement search
        unfold attempt
        split
        · exact Or.inr (Or.inl rfl)
        · split
          · next excluded =>
            unfold Search.excludes at excluded
            split at excluded
            · next held _ => exact Or.inl (by rw [held]; rfl)
            · cases excluded
          · exact ih
      split
      · exact Or.inr (Or.inr rfl)
      · next placements some =>
        obtain ⟨first, member⟩ := List.exists_mem_of_ne_nil _ some
        exact foldl_reaches (fun _ => True) Search.Settled member (fun _ _ _ _ => trivial)
          (fun placement _ search _ _ => attempted placement search)
          (fun search _ => attempted first search) trivial

def Search.Within (problem : Problem Rat) (search : Search Rat) : Prop :=
  ∀ place, search.stuck = some place → place < problem.order.length

theorem within_descend (prepared : problem.Prepared) (reached : problem.Reached ahead branch)
    (sound : search.Sound problem) (known : search.Within problem) :
    (problem.descend ahead branch search).Within problem := by
  induction ahead generalizing branch search with
  | nil =>
    rw [descend]
    unfold Search.finish
    split
    · exact known
    · split <;> exact known
  | cons place rest ih =>
    by_cases taken : (branch.assigned.getD place none).isSome = true
    · rw [descend_taken taken]
      exact ih (reached.skip taken) sound known
    · rw [descend_free taken]
      split
      · intro other stuck
        obtain rfl := Option.some.inj stuck
        have here := reached.within place List.mem_cons_self
        cases before : search.stuck with
        | none => exact Nat.max_lt.mpr ⟨here, Nat.lt_of_le_of_lt (Nat.zero_le _) here⟩
        | some earlier => exact Nat.max_lt.mpr ⟨here, known earlier before⟩
      · refine (foldl_keeps (fun search : Search Rat =>
          search.Sound problem ∧ search.Within problem) ?_ ⟨sound, known⟩).2
        rintro placement offered search ⟨sound, known⟩
        exact ⟨sound_attempt prepared reached offered sound,
          attempt_keeps (Search.Within problem) prepared reached offered (fun _ _ held => held)
            (fun _ _ reached sound held => ih reached sound held) sound known⟩

theorem nameOf_known (prepared : problem.Prepared) {id : Nat} (listed : id ∈ problem.order) :
    ∃ operator ∈ problem.plan.operators, operator.name = problem.nameOf id := by
  have within := (Plan.mem_order prepared.order).mp listed
  refine ⟨problem.plan.operators[id], List.getElem_mem within, ?_⟩
  rw [nameOf, List.getElem?_eq_getElem within]

/-- An error that says which operators could not be joined, or names operators of the plan that are
not covered. -/
def Informs (problem : Problem Rat) (error : OptimizeError) : Prop :=
  (∃ producer consumer, error = .noCompatibleChannel producer consumer) ∨
    ∃ names, error = .unsatisfiable names ∧ names ≠ [] ∧
      ∀ name ∈ names, ∃ operator ∈ problem.plan.operators, operator.name = name

theorem informs_error (prepared : problem.Prepared) (within : search.Within problem)
    (settled : search.Settled) (none : search.best = none) :
    problem.Informs (search.error problem) := by
  unfold Search.error
  cases failed : search.failure with
  | some failure => exact Or.inl ⟨_, _, rfl⟩
  | none =>
    simp only [Search.Settled, none, failed, Option.isSome_none, Bool.false_eq_true, false_or]
      at settled
    obtain ⟨place, stuck⟩ := Option.isSome_iff_exists.mp settled
    have here := within place stuck
    refine Or.inr ⟨_, rfl, by simp [stuck], ?_⟩
    intro name listed
    rw [stuck] at listed
    obtain rfl := List.mem_singleton.mp listed
    refine nameOf_known prepared ?_
    rw [List.getD_eq_getElem?_getD, List.getElem?_eq_getElem here]
    exact List.getElem_mem here

theorem informs_uncovered (prepared : problem.Prepared) (some : problem.uncovered ≠ []) :
    problem.Informs (.unsatisfiable problem.uncovered) := by
  refine Or.inr ⟨_, rfl, some, fun name listed => ?_⟩
  obtain ⟨⟨id, covering⟩, entry, named⟩ := List.mem_filterMap.mp listed
  dsimp only at named
  split at named
  · obtain rfl := Option.some.inj named
    exact nameOf_known prepared (List.of_mem_zip entry).1
  · cases named

theorem covered_of_assignment? (prepared : problem.Prepared) {selection full : List Nat}
    (complete : problem.assignment? selection = some full) : problem.uncovered = [] := by
  have whole := fills_of_assignment? prepared complete
  rw [uncovered, List.filterMap_eq_nil_iff]
  rintro ⟨id, covering⟩ entry
  obtain ⟨place, found⟩ := List.mem_iff_getElem?.mp entry
  obtain ⟨at_, tried⟩ := List.getElem?_zip_eq_some.mp found
  have within : place < full.length := by
    rw [← List.length_map some, whole.length]
    exact (List.getElem?_eq_some_iff.mp at_).1
  have here := (whole.holds place full[place]).mp (by
    rw [getD_map_some, List.getElem?_eq_getElem within])
  have covers := prepared.mem_covering.mpr here.2
  rw [List.getD_eq_getElem?_getD, tried, Option.getD_some] at covers
  refine if_neg ?_
  rw [List.isEmpty_iff]
  rintro rfl
  cases covers

/-! ## The result -/

variable (problem) in
def searched : Search Rat :=
  problem.descend problem.places ⟨problem.unassigned, [], [], Quantity.zero⟩ .empty

theorem atMost_searched (separated : problem.Separated) (prepared : problem.Prepared)
    {selection : List Nat} (valid : problem.score? selection = some score) :
    problem.searched.AtMost score := by
  obtain ⟨full, complete, scored⟩ := score?_eq_some.mp valid
  refine atMost_descend separated prepared complete scored .start .start ?_
    (fun _ none => by cases none)
  intro place candidate held
  have start : problem.Fills problem.unassigned [] := .unassigned
  have listed := (start.holds place candidate).mp held
  cases listed.1

theorem exhaustive_informs (prepared : problem.Prepared) {error : OptimizeError}
    (failed : problem.exhaustive = .error error) :
    problem.Informs error ∧ problem.searched.best = none := by
  simp only [exhaustive] at failed
  split at failed
  · cases failed
  · next none =>
    cases failed
    have within : problem.searched.Within problem :=
      within_descend prepared .start (fun _ none => by cases none) (fun _ none => by cases none)
    exact ⟨informs_error prepared within settled_descend none, none⟩

/-- The exhaustive search finds a selection where there is a valid one, and none comes before it;
where there is none the error says why. -/
theorem solve_exact {registry : RuleRegistry Rat} {plan : Plan} {estimator sizing : Estimator Rat}
    {weights : CostWeights Rat} {known statistics : PlanStatistics} {epoch : Nat}
    {candidates : List (Candidate Rat)} {config : OptimizerConfig Rat}
    (accepted : ∀ rule ∈ registry.rules, rule.pattern.Accepted) (built : plan.Built)
    (matched : registry.candidates estimator weights plan known epoch = .ok candidates)
    (created : create plan candidates sizing statistics config = .ok problem)
    (small : candidates.length ≤ config.exhaustiveLimit) (separated : problem.Separated) :
    ((∃ solution, problem.solve = .ok solution) ↔
      ∃ selection score, problem.score? selection = some score) ∧
    (∀ solution, problem.solve = .ok solution →
      problem.score? solution.selection = some solution.score ∧
        ∀ selection score, problem.score? selection = some score →
          solution.score.key ≤ score.key) ∧
    ∀ error, problem.solve = .error error → problem.Informs error := by
  have prepared := prepared_of_create accepted built matched created
  have limited : problem.candidates.length ≤ problem.config.exhaustiveLimit := by
    obtain ⟨-, same, config, -⟩ := create_ok created
    rw [same, config]
    exact small
  have solved : problem.solve = if !problem.uncovered.isEmpty then
      .error (.unsatisfiable problem.uncovered) else problem.exhaustive := by
    rw [solve, if_pos limited]
  by_cases uncovered : problem.uncovered = []
  · rw [uncovered, List.isEmpty_nil, Bool.not_true, if_neg Bool.false_ne_true] at solved
    rw [solved]
    refine ⟨⟨?_, ?_⟩, ?_, fun error failed => (exhaustive_informs prepared failed).1⟩
    · rintro ⟨solution, found⟩
      exact ⟨_, _, score?_of_exhaustive prepared found⟩
    · rintro ⟨selection, score, valid⟩
      cases outcome : problem.exhaustive with
      | ok solution => exact ⟨solution, rfl⟩
      | error error =>
        obtain ⟨best, held, -⟩ := atMost_searched separated prepared valid
        rw [(exhaustive_informs prepared outcome).2] at held
        cases held
    · intro solution found
      refine ⟨score?_of_exhaustive prepared found, fun selection score valid => ?_⟩
      obtain ⟨best, held, early⟩ := atMost_searched separated prepared valid
      simp only [exhaustive] at found
      rw [searched] at held
      rw [held] at found
      cases found
      exact early
  · rw [if_pos (by simpa using uncovered)] at solved
    rw [solved]
    refine ⟨⟨?_, ?_⟩, ?_, ?_⟩
    · rintro ⟨_, found⟩
      cases found
    · rintro ⟨selection, score, valid⟩
      obtain ⟨full, complete, -⟩ := score?_eq_some.mp valid
      exact absurd (covered_of_assignment? prepared complete) uncovered
    · intro solution found
      cases found
    · intro error failed
      obtain rfl := Except.error.inj failed
      exact informs_uncovered prepared uncovered

/-! ## A problem with six candidates -/

theorem mem_sections_of_assignment? (prepared : problem.Prepared) {selection full : List Nat}
    (complete : problem.assignment? selection = some full) : full ∈ problem.covering.sections := by
  have whole := fills_of_assignment? prepared complete
  have length : full.length = problem.order.length := by simpa using whole.length
  refine List.mem_sections.mpr (List.forall₂_iff_get.mpr ⟨?_, ?_⟩)
  · rw [prepared.covering, List.length_map, length]
  · intro place within within'
    have here := (whole.holds place full[place]).mp (by
      rw [getD_map_some, List.getElem?_eq_getElem within])
    have covers := prepared.mem_covering.mpr here.2
    rwa [List.getD_eq_getElem?_getD, List.getElem?_eq_getElem within'] at covers

def apart (problem : Problem Rat) (first second : List Nat) : Bool :=
  match problem.scoreOf first, problem.scoreOf second with
  | .ok a, .ok b => !sameCost a.cost b.cost || a.cost == b.cost
  | _, _ => true

theorem separated_of_apart (prepared : problem.Prepared)
    (all : ∀ first ∈ problem.covering.sections, ∀ second ∈ problem.covering.sections,
      problem.apart first second = true) : problem.Separated := by
  intro first second a b valid valid' same
  obtain ⟨full, complete, scored⟩ := score?_eq_some.mp valid
  obtain ⟨full', complete', scored'⟩ := score?_eq_some.mp valid'
  have checked := all _ (mem_sections_of_assignment? prepared complete) _
    (mem_sections_of_assignment? prepared complete')
  rw [apart, scored, scored'] at checked
  simpa [same] using checked

def adults : Plan :=
  { operators :=
      [.create 0 "people" (.collectionSource []), .create 1 "grown" (.filter "age > 17"),
        .create 2 "out" (.sink "memory://adults")]
    edges := [⟨⟨0, 0⟩, ⟨1, 0⟩⟩, ⟨⟨1, 0⟩, ⟨2, 0⟩⟩] }

theorem built_adults : adults.Built := by
  have operators := ((Plan.Built.empty.add "people" (.collectionSource [])).add "grown"
    (.filter "age > 17")).add "out" (.sink "memory://adults")
  exact (operators.connect ⟨0, 0⟩ ⟨1, 0⟩ rfl).connect ⟨1, 0⟩ ⟨2, 0⟩ rfl

def uniformCosts : Estimator Rat :=
  .create (fun _ => .ok (some (.ofTimes Quantity.one Quantity.one))) .standard

def adultsRegistry : RuleRegistry Rat :=
  ⟨[.collectionSource, .filter, .sink].flatMap fun kind =>
    Platform.all.map fun platform => kindRule platform kind⟩

def adultsFound : Except MappingError (List (List (Candidate Rat))) :=
  adultsRegistry.rules.zipIdx.mapM fun (rule, place) => (rule.pattern.findMatches adults).mapM
    (RuleRegistry.candidate uniformCosts .standard adults ⟨[]⟩ 0 place rule)

def adultsCandidates : List (Candidate Rat) :=
  (adultsFound.toOption.getD []).flatten.zipIdx.map fun (candidate, place) =>
    { candidate with id := place }

def adultsProblem : Problem Rat :=
  let groups := groupsOf adults [0, 1, 2]
  let covering := [[0, 1], [2, 3], [4, 5]]
  { plan := adults, candidates := adultsCandidates, config := .standard, order := [0, 1, 2]
    covering, groups
    touching := [0, 1, 2].map (touchingOf groups)
    conversionCosts := groups.map (conversionCostsOf uniformCosts .standard ⟨[]⟩)
    lowerShare := covering.map (leastShare? adultsCandidates) }

theorem adults_matched :
    adultsRegistry.candidates uniformCosts .standard adults ⟨[]⟩ 0 = .ok adultsCandidates := by
  have found : adultsFound = .ok (adultsFound.toOption.getD []) := by
    have succeeds : adultsFound.isOk = true := by decide +kernel
    cases outcome : adultsFound with
    | ok found => rfl
    | error error => simp [outcome, Except.isOk, Except.toBool] at succeeds
  have sorted : (adultsFound.toOption.getD []).flatten.Pairwise fun a b =>
      (Candidate.order a b != .gt) = true := by decide +kernel
  refine bind_ok_iff.mpr ⟨_, found, ?_⟩
  rw [Candidate.arrange, List.mergeSort_of_pairwise sorted]
  rfl

theorem adults_created :
    create adults adultsCandidates uniformCosts ⟨[]⟩ .standard = .ok adultsProblem := by
  have order : adults.order = .ok [0, 1, 2] := by decide +kernel
  have covering : [0, 1, 2].map (coveringOf adultsCandidates) = [[0, 1], [2, 3], [4, 5]] := by
    simp only [coveringOf, List.map_cons, List.map_nil]
    rw [List.mergeSort_of_pairwise (by decide +kernel),
      List.mergeSort_of_pairwise (by decide +kernel),
      List.mergeSort_of_pairwise (by decide +kernel)]
    decide +kernel
  unfold create
  rw [order]
  simp only [Except.mapError, adultsProblem, ← covering]
  rfl

/-- The best of eight selections is found, of which the two on one platform cost the same. -/
theorem solve_exact_adults : ∃ solution, adultsProblem.solve = .ok solution ∧
    ∀ selection score, adultsProblem.score? selection = some score →
      solution.score.key ≤ score.key := by
  have accepted : ∀ rule ∈ adultsRegistry.rules, rule.pattern.Accepted := by
    intro rule listed
    obtain ⟨kind, -, listed⟩ := List.mem_flatMap.mp listed
    obtain ⟨platform, -, rfl⟩ := List.mem_map.mp listed
    exact Pattern.accepted_singleton _
  have prepared := prepared_of_create accepted built_adults adults_matched adults_created
  have apart : ∀ first ∈ adultsProblem.covering.sections,
      ∀ second ∈ adultsProblem.covering.sections, adultsProblem.apart first second = true := by
    decide +kernel
  have valid : (adultsProblem.score? [0, 2, 4]).isSome = true := by decide +kernel
  obtain ⟨score, valid⟩ := Option.isSome_iff_exists.mp valid
  obtain ⟨solvable, least, -⟩ := solve_exact accepted built_adults adults_matched adults_created
    (by decide +kernel) (separated_of_apart prepared apart)
  obtain ⟨solution, found⟩ := solvable.mpr ⟨_, score, valid⟩
  exact ⟨solution, found, (least solution found).2⟩

end Problem

end CrossPlan
