import CrossPlan.Proofs.Selection.Outcome
import CrossPlan.Proofs.Selection.Solving
import Mathlib.Tactic.Linarith
import Mathlib.Tactic.Ring

/-!
# The bound of a branch is never too high

The cost of a selection is the sum of the shares of the candidates at all places and of what it
costs to hand over all outputs.  A branch counts the shares at the places that are taken and the
outputs that are complete; its bound adds the least share for each place that is free.
-/

set_option autoImplicit false

namespace CrossPlan.Problem

open Sequence

variable {problem : Problem Rat} {assigned full : Assignment} {selection : List Nat}

/-! ## Shares -/

def costOf (problem : Problem Rat) (candidate : Nat) : Rat :=
  match problem.candidates[candidate]? with
  | some found => found.cost
  | none => 0

def shareOf (problem : Problem Rat) (candidate : Nat) : Rat :=
  match problem.candidates[candidate]? with
  | some found => share found found.cost
  | none => 0

def held (problem : Problem Rat) (chosen : Option Nat) : Rat := chosen.elim 0 problem.shareOf

def shareSum (problem : Problem Rat) (assigned : Assignment) : Rat :=
  (assigned.map problem.held).sum

theorem shareSum_set {candidate place : Nat} (free : assigned[place]? = some none) :
    problem.shareSum (assigned.set place (some candidate)) =
      problem.shareSum assigned + problem.shareOf candidate := by
  unfold shareSum
  induction assigned generalizing place with
  | nil => cases free
  | cons first rest ih =>
    cases place with
    | zero =>
      obtain rfl := Option.some.inj free
      simp [held, add_comm]
    | succ place =>
      rw [List.set_cons_succ, List.map_cons, List.sum_cons, ih free, List.map_cons, List.sum_cons,
        add_assoc]

theorem shareSum_fill {candidate : Nat} {places : List Nat} (distinct : places.Nodup)
    (free : ∀ place ∈ places, assigned[place]? = some none) :
    problem.shareSum (places.foldl (fun assigned place => assigned.set place (some candidate))
      assigned) = problem.shareSum assigned + places.length * problem.shareOf candidate := by
  induction places generalizing assigned with
  | nil => simp
  | cons place rest ih =>
    obtain ⟨fresh, distinct⟩ := List.nodup_cons.mp distinct
    have still : ∀ other ∈ rest, (assigned.set place (some candidate))[other]? = some none := by
      intro other later
      have different : place ≠ other := fun same => fresh (same ▸ later)
      rw [List.getElem?_set_ne different]
      exact free other (List.mem_cons_of_mem _ later)
    rw [List.foldl_cons, ih distinct still, shareSum_set (free place List.mem_cons_self),
      List.length_cons]
    push_cast
    ring

theorem share_mul (candidate : Candidate Rat) (covers : candidate.covered ≠ []) :
    (candidate.covered.length : Rat) * share candidate candidate.cost = candidate.cost := by
  have positive : 1 ≤ candidate.covered.length := List.length_pos_iff.mpr covers
  have nonzero : (candidate.covered.length : Rat) ≠ 0 := by
    exact_mod_cast Nat.one_le_iff_ne_zero.mp positive
  unfold share
  rw [max_eq_right positive, Quantity.ofNat_rat]
  exact mul_div_cancel₀ candidate.cost nonzero

theorem shareSum_place (prepared : problem.Prepared) {chosen : List Nat}
    (fills : problem.Fills assigned chosen) {candidate : Nat} {places : List Nat}
    {result : Assignment} (placed : problem.place? candidate assigned = some (places, result)) :
    problem.shareSum result = problem.shareSum assigned + problem.costOf candidate := by
  obtain ⟨-, -, covered, free, -⟩ := fills.place prepared placed
  obtain ⟨found, -, rfl⟩ := place?_iff.mp placed
  obtain ⟨candidate', present, _⟩ := Option.bind_eq_some_iff.mp found
  obtain ⟨places', found', distinct, length, -⟩ := prepared.placesOf? present
  obtain rfl := Option.some.inj (found.symm.trans found')
  have empty : ∀ place ∈ places, assigned[place]? = some none := by
    intro place listed
    have within := (Prepared.covers_lt ((covered place).mp listed)).2
    rw [← fills.length] at within
    have value := free place listed
    rw [List.getD_eq_getElem?_getD, List.getElem?_eq_getElem within, Option.getD_some] at value
    rw [List.getElem?_eq_getElem within, value]
  rw [shareSum_fill distinct empty, shareOf, costOf, present, length]
  exact congrArg _ (share_mul candidate' (prepared.nonempty _ (List.mem_of_getElem? present)))

theorem shareSum_foldlM (prepared : problem.Prepared) {chosen : List Nat}
    (fills : problem.Fills assigned chosen) {result : Assignment}
    (placed : selection.foldlM (fun assigned candidate =>
      (problem.place? candidate assigned).map (·.2)) assigned = some result) :
    problem.shareSum result = problem.shareSum assigned + (selection.map problem.costOf).sum := by
  induction selection generalizing assigned chosen with
  | nil =>
    cases placed
    simp
  | cons candidate rest ih =>
    rw [List.foldlM_cons] at placed
    obtain ⟨_, mapped, later⟩ := Option.bind_eq_some_iff.mp placed
    obtain ⟨⟨places, next⟩, first, rfl⟩ := Option.map_eq_some_iff.mp mapped
    rw [ih (fills.place prepared first).1 later, shareSum_place prepared fills first,
      List.map_cons, List.sum_cons, add_assoc]

theorem shareSum_unassigned : problem.shareSum problem.unassigned = 0 := by
  simp [shareSum, unassigned, held]

/-! ## The cost of a selection -/

theorem costsOf_sum (candidates : List Nat) :
    (problem.costsOf candidates).sum = (candidates.map problem.costOf).sum := by
  unfold costsOf
  induction candidates with
  | nil => rfl
  | cons candidate rest ih =>
    rw [List.map_cons, List.sum_cons, ← ih, costOf, List.filterMap_cons]
    cases problem.candidates[candidate]? <;> simp

/-- The score of a selection adds up the shares at all places and the costs of all groups, each of
which can be handed over. -/
theorem cost_of_score? (prepared : problem.Prepared) {full : List Nat} {score : Score Rat}
    (complete : problem.assignment? selection = some full)
    (scored : problem.scoreOf full = .ok score) :
    (∀ group < problem.groups.length, ∃ found, problem.outcome (full.map some) group = .ok found) ∧
      score.cost = problem.shareSum (full.map some) +
        ((List.range problem.groups.length).map (problem.costAt (full.map some))).sum := by
  obtain ⟨outcomes, handed, success⟩ := bind_ok_iff.mp scored
  cases success
  have each := mapM_ok_iff.mp handed
  have costs : outcomes.map outcomeCost =
      (List.range problem.groups.length).map (problem.costAt (full.map some)) := by
    refine (List.forall₂_eq_eq_eq ▸ ?_ : _ = _).symm
    rw [List.forall₂_map_left_iff, List.forall₂_map_right_iff]
    refine each.imp fun group found handed => ?_
    rw [costAt, handed]
  constructor
  · intro group within
    obtain ⟨found, -, handed⟩ := mem_left each (List.mem_range.mpr within)
    exact ⟨found, handed⟩
  · have fills := fills_of_assignment? prepared complete
    have shares := shareSum_foldlM prepared Fills.unassigned (assignment?_iff.mp complete)
    rw [shareSum_unassigned, zero_add] at shares
    rw [Quantity.foldl_add_rat, Quantity.sum_rat, costsOf_sum, costs, shares]
    exact congrArg (· + _) ((fills.used_perm prepared).map problem.costOf).sum_eq

/-! ## The cost of a branch -/

/-- A branch costs the shares at the places that are taken and the groups that are counted, each
once and complete. -/
structure Priced (problem : Problem Rat) (branch : Branch Rat) : Prop where
  distinct : branch.counted.Nodup
  complete : ∀ group ∈ branch.counted, problem.isComplete branch.assigned group = true
  cost : branch.cost = problem.shareSum branch.assigned +
    (branch.counted.map (problem.costAt branch.assigned)).sum

theorem Priced.start : problem.Priced ⟨problem.unassigned, [], [], Quantity.zero⟩ where
  distinct := List.nodup_nil
  complete := by simp
  cost := by simp [shareSum_unassigned]

theorem completed_iff {counted places : List Nat} {group : Nat} :
    group ∈ problem.completed assigned counted places ↔
      (∃ place ∈ places, group ∈ problem.touching.getD place []) ∧ group ∉ counted ∧
        problem.isComplete assigned group = true := by
  simp [completed, List.mem_eraseDups]

theorem nodup_completed (counted places : List Nat) :
    (problem.completed assigned counted places).Nodup :=
  (nodup_eraseDups _).filter _

theorem Priced.grow (prepared : problem.Prepared) {branch next : Branch Rat} {chosen : List Nat}
    (fills : problem.Fills branch.assigned chosen) (priced : problem.Priced branch)
    {candidate : Nat} {placement : Placement Rat}
    (placed : problem.placement? branch candidate = some placement)
    (grown : problem.grow branch placement = .ok next) : problem.Priced next := by
  obtain ⟨found, places, assigned, present, step, rfl⟩ := placement?_iff.mp placed
  obtain ⟨cost, rfl, added⟩ := grow_ok grown
  obtain ⟨-, total⟩ := addGroups_ok.mp added
  obtain ⟨-, keeps, -⟩ := fills.place prepared step
  refine ⟨?_, ?_, ?_⟩
  · rw [Branch.after, List.nodup_append]
    refine ⟨priced.distinct, nodup_completed _ _, ?_⟩
    intro a old b new same
    subst same
    exact (completed_iff.mp new).2.1 old
  · intro group listed
    rcases List.mem_append.mp listed with old | new
    · exact isComplete_of_keeps keeps (priced.complete group old)
    · exact (completed_iff.mp new).2.2
  · have same : branch.counted.map (problem.costAt assigned) =
        branch.counted.map (problem.costAt branch.assigned) :=
      List.map_congr_left fun group old => by
        rw [costAt, outcome_of_keeps keeps (priced.complete group old), costAt]
    have cost' : problem.costOf candidate = found.cost := by rw [costOf, present]
    simp only [Branch.after, List.map_append, List.sum_append, same]
    rw [total, priced.cost, shareSum_place prepared fills step, cost']
    ring

/-! ## The bound -/

theorem leastShare?_le {covering : List Nat} {least : Rat}
    (found : leastShare? problem.candidates covering = some least) {candidate : Nat}
    (covers : candidate ∈ covering) (known : candidate < problem.candidates.length) :
    least ≤ problem.shareOf candidate := by
  refine bestBy_lt_le found _ (List.mem_filter.mpr ⟨List.mem_filterMap.mpr ⟨candidate, covers, ?_⟩,
    Quantity.defined_rat _⟩)
  rw [shareOf, List.getElem?_eq_getElem known]
  rfl

theorem sum_free_le {lower : List (Option Rat)} {full : List Nat} {shares : List Rat}
    (keeps : List.Forall₂ (fun chosen final => ∀ candidate, chosen = some candidate →
      candidate = final) assigned full)
    (least : List.Forall₂ (fun share final => ∀ least, share = some least →
      least ≤ problem.shareOf final) lower full)
    (found : ((assigned.zip lower).filterMap fun (chosen, share) =>
      if chosen.isNone then some share else none).mapM id = some shares) :
    problem.shareSum assigned + shares.sum ≤ problem.shareSum (full.map some) := by
  unfold shareSum
  induction keeps generalizing lower shares with
  | nil =>
    cases least
    cases found
    simp
  | @cons chosen final assigned full now _ ih =>
    cases least with
    | @cons share _ lower _ here later =>
    simp only [List.map_cons, List.sum_cons]
    cases chosen with
    | some candidate =>
      obtain rfl := now candidate rfl
      have rest := ih later (by simpa using found)
      rw [add_assoc]
      exact add_le_add_right rest _
    | none =>
      change (share :: (assigned.zip lower).filterMap _).mapM id = some shares at found
      rw [List.mapM_cons] at found
      obtain ⟨first, defined, tail⟩ := Option.bind_eq_some_iff.mp found
      obtain ⟨others, listed, made⟩ := Option.bind_eq_some_iff.mp tail
      obtain rfl := Option.some.inj made
      have rest := ih later listed
      have own := here first defined
      rw [List.sum_cons]
      simp only [held, Option.elim_none, Option.elim_some] at rest ⊢
      linarith

/-- No selection that keeps what a branch holds costs less than the bound of the branch. -/
theorem bound?_le (prepared : problem.Prepared) {branch : Branch Rat} {chosen : List Nat}
    (fills : problem.Fills branch.assigned chosen) (priced : problem.Priced branch)
    {full : List Nat} {score : Score Rat}
    (complete : problem.assignment? selection = some full)
    (keeps : Keeps (full.map some) branch.assigned)
    (scored : problem.scoreOf full = .ok score) {bound : Rat}
    (bounded : problem.bound? branch = some bound) : bound ≤ score.cost := by
  have whole := fills_of_assignment? prepared complete
  have length : full.length = problem.order.length := by simpa using whole.length
  obtain ⟨-, cost⟩ := cost_of_score? prepared complete scored
  obtain ⟨shares, found, rfl⟩ := Option.map_eq_some_iff.mp bounded
  have places : problem.shareSum branch.assigned + shares.sum ≤
      problem.shareSum (full.map some) := by
    refine sum_free_le ?_ ?_ found
    · refine List.forall₂_iff_get.mpr ⟨by rw [fills.length, length], ?_⟩
      intro place within within' candidate taken
      have kept := keeps place candidate (by
        rw [List.getD_eq_getElem?_getD, List.getElem?_eq_getElem within]
        exact taken)
      rw [getD_map_some, List.getElem?_eq_getElem within', Option.some.injEq] at kept
      exact kept.symm
    · rw [prepared.lowerShare, prepared.covering]
      refine List.forall₂_iff_get.mpr ⟨by simp [length], ?_⟩
      intro place _ within' least found
      have here := (whole.holds place full[place]).mp (by
        rw [getD_map_some, List.getElem?_eq_getElem within'])
      have covers := prepared.mem_covering.mpr here.2
      rw [prepared.covering, List.getD_eq_getElem?_getD, List.getElem?_map,
        List.getElem?_eq_getElem (length ▸ within')] at covers
      refine leastShare?_le ?_ covers (whole.known _ here.1)
      simpa using found
  have groups : (branch.counted.map (problem.costAt branch.assigned)).sum ≤
      ((List.range problem.groups.length).map (problem.costAt (full.map some))).sum := by
    have same : branch.counted.map (problem.costAt branch.assigned) =
        branch.counted.map (problem.costAt (full.map some)) :=
      List.map_congr_left fun group old => by
        rw [costAt, ← outcome_of_keeps keeps (priced.complete group old), costAt]
    have among : branch.counted ⊆ List.range problem.groups.length := by
      intro group listed
      obtain ⟨_, found, -⟩ := isComplete_iff.mp (priced.complete group listed)
      exact List.mem_range.mpr (List.getElem?_eq_some_iff.mp found).1
    obtain ⟨sorted, permuted, within⟩ := List.subperm_of_subset priced.distinct among
    rw [same, ← (permuted.map _).sum_eq]
    refine (within.map _).sum_le_sum ?_
    intro cost listed
    obtain ⟨group, -, rfl⟩ := List.mem_map.mp listed
    exact costAt_nonneg group
  rw [cost, Quantity.sum_rat, priced.cost]
  have both := add_le_add places groups
  linarith

end CrossPlan.Problem
