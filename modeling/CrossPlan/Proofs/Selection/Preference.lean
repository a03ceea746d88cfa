import CrossPlan.Proofs.Selection.Exhaustive
import Mathlib.Data.Ordering.Lemmas

/-!
# Which selection is preferred

Costs count as the same within a tolerance, and scores with such costs are told apart by what comes
after the cost.  Comparing is therefore no order of its own: where one cost counts as the same as
two others that differ, scores precede each other in a circle, and what is kept of them depends on
which is met first.  Among costs without such a cost in between it is an order, and the least is
kept.
-/

set_option autoImplicit false

namespace CrossPlan

/-! ## Costs that count as the same -/

theorem sameCost_iff {a b : Rat} :
    sameCost a b = true ↔ |a - b| ≤ 1 / 10 ^ 9 * max (max |a| |b|) 1 := by
  have digits : (Quantity.ofDecimal 1 9 : Rat) = 1 / 10 ^ 9 := by
    rw [Quantity.ofDecimal_rat, Nat.cast_one]
  simp only [sameCost, Quantity.le_rat, Quantity.size_rat, Quantity.larger_rat, digits]
  rfl

theorem sameCost_comm (a b : Rat) : sameCost a b = sameCost b a := by
  rw [Bool.eq_iff_iff, sameCost_iff, sameCost_iff, abs_sub_comm, max_comm |a|]

/-- A cost between two others that count as the same counts as the same as the lower one. -/
theorem sameCost_of_between {low middle high : Rat} (above : low ≤ middle) (below : middle ≤ high)
    (same : sameCost low high = true) : sameCost low middle = true := by
  rw [sameCost_iff] at same ⊢
  rw [abs_sub_comm, abs_of_nonneg (by linarith)] at same ⊢
  by_cases larger : |high| ≤ max (max |low| |middle|) 1
  · have bound : max (max |low| |high|) 1 ≤ max (max |low| |middle|) 1 :=
      max_le (max_le (le_max_of_le_left (le_max_left _ _)) larger) (le_max_right _ _)
    linarith
  · -- the highest cost is positive and sets the tolerance
    simp only [not_le, max_lt_iff] at larger
    obtain ⟨⟨wider, beyond⟩, large⟩ := larger
    have positive : 0 < high := by
      by_contra negative
      rw [abs_of_nonpos (not_lt.mp negative), abs_of_nonpos (by linarith)] at beyond
      linarith
    rw [max_eq_right wider.le, max_eq_left large.le, abs_of_pos positive] at same
    have floor : |middle| ≤ max (max |low| |middle|) 1 :=
      le_max_of_le_left (le_max_right _ _)
    have above' := le_abs_self middle
    linarith

theorem sameCost_of_between' {low middle high : Rat} (above : low ≤ middle) (below : middle ≤ high)
    (same : sameCost low high = true) : sameCost middle high = true := by
  have mirrored : ∀ {a b : Rat}, sameCost (-a) (-b) = sameCost a b := by
    intro a b
    rw [Bool.eq_iff_iff, sameCost_iff, sameCost_iff, abs_neg, abs_neg, neg_sub_neg, abs_sub_comm]
  rw [sameCost_comm, ← mirrored]
  rw [sameCost_comm, ← mirrored] at same
  exact sameCost_of_between (neg_le_neg below) (neg_le_neg above) same

/-- To count as the same carries over among some costs. -/
def CarriesOver (among : Rat → Prop) : Prop :=
  ∀ x y z, among x → among y → among z →
    sameCost x y = true → sameCost y z = true → sameCost x z = true

/-! ## Comparing -/

namespace Score

def rest (score : Score Rat) : Nat ×ₗ List Nat ×ₗ List Nat :=
  toLex (score.crossLinks, toLex (score.ranks, score.candidates))

theorem order_eq_lt {a b : Score Rat} : a.order b = .lt ↔
    (sameCost a.cost b.cost = true ∧ a.rest < b.rest) ∨
      (sameCost a.cost b.cost ≠ true ∧ a.cost < b.cost) := by
  unfold order
  split
  · next same =>
    simp only [same, rest, Prod.Lex.toLex_lt_toLex, Ordering.then_eq_lt, Ordering.then_eq_eq,
      Nat.compare_eq_lt, Nat.compare_eq_eq, compare_list_lt, compare_list_eq]
    tauto
  · next different => simp [different, Quantity.rank_rat_lt]

theorem order_eq_eq {a b : Score Rat} :
    a.order b = .eq ↔ sameCost a.cost b.cost = true ∧ a.rest = b.rest := by
  unfold order
  split
  · next same =>
    simp only [same, rest, toLex_inj, Prod.mk.injEq, Ordering.then_eq_eq, Nat.compare_eq_eq,
      compare_list_eq, true_and, and_assoc]
  · next different =>
    have apart : a.cost ≠ b.cost := fun same => different (same ▸ sameCost_self a.cost)
    simp [different, Quantity.rank, apart]

theorem order_swap (a b : Score Rat) : b.order a = (a.order b).swap := by
  unfold order
  rw [sameCost_comm]
  split
  · rw [Ordering.swap_then, Ordering.swap_then, ← Std.OrientedOrd.eq_swap,
      ← Std.OrientedOrd.eq_swap, ← Std.OrientedOrd.eq_swap]
  · simp only [Quantity.rank]
    rcases lt_trichotomy a.cost b.cost with less | equal | more
    · simp [less, less.not_gt, less.ne']
    · simp [equal]
    · simp [more, more.not_gt, more.ne']

def Carries (among : Rat → Prop) (outcome : Ordering) : Prop :=
  ∀ a b c : Score Rat, among a.cost → among b.cost → among c.cost →
    a.order b = outcome → b.order c = outcome → a.order c = outcome

variable {among : Rat → Prop}

theorem carries_lt (same : CarriesOver among) : Carries among .lt := by
  intro a b c amongA amongB amongC first second
  rw [order_eq_lt] at first second ⊢
  rcases first with ⟨near, less⟩ | ⟨apart, less⟩ <;>
    rcases second with ⟨near', less'⟩ | ⟨apart', less'⟩
  · exact Or.inl ⟨same _ _ _ amongA amongB amongC near near', less.trans less'⟩
  · refine Or.inr ⟨fun close => apart' ?_, not_le.mp fun below => apart' ?_⟩
    · exact same _ _ _ amongB amongA amongC (sameCost_comm _ _ ▸ near) close
    · exact sameCost_of_between less'.le below (sameCost_comm _ _ ▸ near)
  · refine Or.inr ⟨fun close => apart ?_, not_le.mp fun below => apart ?_⟩
    · exact same _ _ _ amongA amongC amongB close (sameCost_comm _ _ ▸ near')
    · exact sameCost_of_between' below less.le (sameCost_comm _ _ ▸ near')
  · exact Or.inr ⟨fun close => apart (sameCost_of_between less.le less'.le close), less.trans less'⟩

theorem carries_eq_iff : Carries among .eq ↔ CarriesOver among := by
  constructor
  · intro carries x y z amongX amongY amongZ first second
    let plain (cost : Rat) : Score Rat := ⟨cost, 0, [], []⟩
    have same := carries (plain x) (plain y) (plain z) amongX amongY amongZ
      (order_eq_eq.mpr ⟨first, rfl⟩) (order_eq_eq.mpr ⟨second, rfl⟩)
    exact (order_eq_eq.mp same).1
  · intro same a b c amongA amongB amongC first second
    obtain ⟨cost, equal⟩ := order_eq_eq.mp first
    obtain ⟨cost', equal'⟩ := order_eq_eq.mp second
    exact order_eq_eq.mpr ⟨same _ _ _ amongA amongB amongC cost cost', equal.trans equal'⟩

theorem order_eq_eq_of_not_lt {a b : Score Rat} (first : a.order b ≠ .lt)
    (second : b.order a ≠ .lt) : a.order b = .eq := by
  rw [order_swap] at second
  cases outcome : a.order b <;> simp_all

end Score

/-! ## Keeping the preferred solution -/

namespace Solution

def keep (best : Option (Solution Rat)) (next : Solution Rat) : Option (Solution Rat) :=
  if best.all fun best => next.score.order best.score == .lt then some next else best

def kept (met : List (Solution Rat)) : Option (Solution Rat) := met.foldl keep none

/-- The same is kept of solutions with some costs in whatever order they are met, up to solutions
that compare as equal. -/
def Settled (among : Rat → Prop) : Prop :=
  ∀ met again : List (Solution Rat), met.Perm again →
    (∀ solution ∈ met, among solution.score.cost) →
      Option.Rel (fun first second => first.score.order second.score = .eq) (kept met) (kept again)

variable {among : Rat → Prop}

/-- What is kept is one of the solutions, and none comes before it. -/
structure Least (met : List (Solution Rat)) (best : Solution Rat) : Prop where
  present : best ∈ met
  first : ∀ solution ∈ met, solution.score.order best.score ≠ .lt

theorem keep_some (best next : Solution Rat) :
    keep (some best) next = some (if next.score.order best.score = .lt then next else best) := by
  simp only [keep, Option.all_some, beq_iff_eq]
  split <;> rfl

theorem least_singleton (only : Solution Rat) : Least [only] only where
  present := List.mem_singleton_self only
  first := by
    intro solution listed
    rw [List.mem_singleton.mp listed, Score.order_eq_eq.mpr ⟨sameCost_self _, rfl⟩]
    exact nofun

theorem Least.keep (carries : Score.Carries among .lt) {met : List (Solution Rat)}
    {best next : Solution Rat} (least : Least met best)
    (costs : ∀ solution ∈ met ++ [next], among solution.score.cost) :
    Least (met ++ [next]) (if next.score.order best.score = .lt then next else best) := by
  have own : next ∈ met ++ [next] := List.mem_append_right met (List.mem_singleton_self next)
  have other := List.mem_append_left [next] least.present
  split
  · next before =>
    refine ⟨own, fun solution listed earlier => ?_⟩
    rcases List.mem_append.mp listed with old | new
    · exact least.first solution old
        (carries _ _ _ (costs _ listed) (costs _ own) (costs _ other) earlier before)
    · exact (least_singleton next).first solution new earlier
  · next late =>
    refine ⟨other, fun solution listed => ?_⟩
    rcases List.mem_append.mp listed with old | new
    · exact least.first solution old
    · exact List.mem_singleton.mp new ▸ late

theorem kept_cases (carries : Score.Carries among .lt) {met : List (Solution Rat)}
    (costs : ∀ solution ∈ met, among solution.score.cost) :
    (met = [] ∧ kept met = none) ∨ ∃ best, kept met = some best ∧ Least met best := by
  induction met using List.reverseRecOn with
  | nil => exact Or.inl ⟨rfl, rfl⟩
  | append_singleton met next ih =>
    right
    rw [kept, List.foldl_append, ← kept]
    rcases ih fun solution listed => costs solution (List.mem_append_left _ listed) with
      ⟨rfl, none⟩ | ⟨best, held, least⟩
    · exact ⟨next, by rw [none]; rfl, least_singleton next⟩
    · exact ⟨_, by rw [held, List.foldl_cons, List.foldl_nil, keep_some], least.keep carries costs⟩

theorem settled_of_carries (carries : Score.Carries among .lt) : Settled among := by
  intro met again shuffled costs
  have same : ∀ {solution}, solution ∈ again ↔ solution ∈ met := shuffled.mem_iff.symm
  rcases kept_cases carries costs with ⟨rfl, none⟩ | ⟨best, held, least⟩
  · rw [shuffled.nil_eq.symm, none]
    exact .none
  · rcases kept_cases carries fun solution listed => costs solution (same.mp listed) with
      ⟨rfl, -⟩ | ⟨best', held', least'⟩
    · exact absurd (same.mpr least.present) List.not_mem_nil
    · rw [held, held']
      exact .some (Score.order_eq_eq_of_not_lt (least'.first _ (same.mpr least.present))
        (least.first _ (same.mp least'.present)))

def plain (cost : Rat) (crossLinks : Nat) : Solution Rat := ⟨[], cost, crossLinks, [], []⟩

theorem carriesOver_of_settled (settled : Settled among) : CarriesOver among := by
  -- otherwise three solutions precede each other in a circle, and the one that is met last is kept
  have wide : ∀ low middle high, among low → among middle → among high → low < high →
      sameCost high middle = true → sameCost middle low = true → sameCost high low = true := by
    intro low middle high amongLow amongMiddle amongHigh below near near'
    by_contra apart
    have first : (plain high 0).score.order (plain middle 1).score = .lt :=
      Score.order_eq_lt.mpr (Or.inl ⟨near, Prod.Lex.toLex_lt_toLex.mpr (Or.inl Nat.one_pos)⟩)
    have second : (plain middle 1).score.order (plain low 2).score = .lt :=
      Score.order_eq_lt.mpr (Or.inl ⟨near', Prod.Lex.toLex_lt_toLex.mpr (Or.inl Nat.one_lt_two)⟩)
    have last : (plain low 2).score.order (plain high 0).score = .lt :=
      Score.order_eq_lt.mpr (Or.inr ⟨sameCost_comm low high ▸ apart, below⟩)
    have late : (plain middle 1).score.order (plain high 0).score ≠ .lt := by
      rw [Score.order_swap, first]
      exact nofun
    have shuffled : [plain low 2, plain middle 1, plain high 0].Perm
        [plain high 0, plain middle 1, plain low 2] :=
      List.reverse_perm [plain high 0, plain middle 1, plain low 2]
    have same := settled _ _ shuffled (by
      simp only [List.forall_mem_cons]
      exact ⟨amongLow, amongMiddle, amongHigh, by simp⟩)
    have up : kept [plain low 2, plain middle 1, plain high 0] = some (plain high 0) := by
      change keep (keep (some (plain low 2)) (plain middle 1)) (plain high 0) = _
      rw [keep_some, if_pos second, keep_some, if_pos first]
    have down : kept [plain high 0, plain middle 1, plain low 2] = some (plain low 2) := by
      change keep (keep (some (plain high 0)) (plain middle 1)) (plain low 2) = _
      rw [keep_some, if_neg late, keep_some, if_pos last]
    rw [up, down] at same
    cases same with
    | some equal =>
      rw [Score.order_swap, last] at equal
      cases equal
  intro x y z amongX amongY amongZ near near'
  rcases lt_trichotomy x z with less | rfl | more
  · rw [sameCost_comm]
    exact wide x y z amongX amongY amongZ less (sameCost_comm _ _ ▸ near')
      (sameCost_comm _ _ ▸ near)
  · exact sameCost_self x
  · exact wide z y x amongZ amongY amongX more near near'

end Solution

namespace Problem

def solution? (problem : Problem Rat) (branch : Branch Rat) : Option (Solution Rat) :=
  (problem.scoreOf (branch.assigned.filterMap id)).toOption.map fun score => ⟨branch.chosen, score⟩

/-- A search keeps of the complete branches that it meets what is kept of their solutions. -/
theorem best_foldl_finish (problem : Problem Rat) (branches : List (Branch Rat))
    (search : Search Rat) :
    (branches.foldl (Search.finish problem) search).best =
      (branches.filterMap problem.solution?).foldl Solution.keep search.best := by
  induction branches generalizing search with
  | nil => rfl
  | cons branch others ih =>
    rw [List.foldl_cons, ih, List.filterMap_cons]
    unfold Search.finish solution?
    cases problem.scoreOf (branch.assigned.filterMap id) with
    | error failure => rfl
    | ok score =>
      simp only [Except.toOption, Option.map_some, List.foldl_cons]
      congr 1
      unfold Solution.keep
      split <;> rfl

end Problem

/-- Comparing two scores either way gives opposite outcomes.  To come before, to compare as equal,
and what a search keeps of the selections that it meets are each what an order makes of them, among
scores with some costs, exactly if to count as the same carries over among these costs. -/
theorem Score.order_total_iff (among : Rat → Prop) :
    (∀ a b : Score Rat, b.order a = (a.order b).swap) ∧
    (Score.Carries among .lt ↔ CarriesOver among) ∧
    (Score.Carries among .eq ↔ CarriesOver among) ∧
    (Solution.Settled among ↔ CarriesOver among) ∧
    ∀ (problem : Problem Rat) (branches : List (Problem.Branch Rat)),
      (branches.foldl (Problem.Search.finish problem) .empty).best =
        Solution.kept (branches.filterMap problem.solution?) :=
  ⟨Score.order_swap,
    ⟨fun carries => Solution.carriesOver_of_settled (Solution.settled_of_carries carries),
      Score.carries_lt⟩,
    Score.carries_eq_iff,
    ⟨Solution.carriesOver_of_settled,
      fun same => Solution.settled_of_carries (Score.carries_lt same)⟩,
    fun problem branches => problem.best_foldl_finish branches .empty⟩

/-- Costs of `0`, `0.0000000009` and `0.0000000018` lie too close to each other for scores to be in
an order. -/
theorem Score.not_order_total_nonneg :
    ¬ Score.Carries (0 ≤ ·) .lt ∧ ¬ Score.Carries (0 ≤ ·) .eq ∧ ¬ Solution.Settled (0 ≤ ·) := by
  have apart : ¬ CarriesOver (0 ≤ ·) := by
    intro same
    have far : sameCost (0 : Rat) (18 / 10 ^ 10) = false := by decide +kernel
    rw [same 0 (9 / 10 ^ 10) (18 / 10 ^ 10) le_rfl (by norm_num) (by norm_num)
      (by decide +kernel) (by decide +kernel)] at far
    cases far
  obtain ⟨-, before, equal, settled, -⟩ := Score.order_total_iff (0 ≤ ·)
  exact ⟨apart ∘ before.mp, apart ∘ equal.mp, apart ∘ settled.mp⟩

end CrossPlan
