import CrossPlan.Channel.Route
import CrossPlan.Proofs.Channel.Routing
import Mathlib.Algebra.Order.BigOperators.Group.List
import Mathlib.Algebra.Order.Ring.Rat

/-!
# Exact arithmetic

On rationals the operations of costs are those of the ordered field, so that routes never cost less
than nothing and the best of several quantities is the least.
-/

set_option autoImplicit false

namespace CrossPlan

namespace Quantity

@[simp]
theorem lt_rat (a b : Rat) : lt a b = true ↔ a < b := decide_eq_true_iff

@[simp]
theorem eq_rat (a b : Rat) : eq a b = true ↔ a = b := beq_iff_eq

@[simp]
theorem defined_rat (a : Rat) : defined a = true := beq_self_eq_true a

@[simp]
theorem ofNat_rat (n : Nat) : (ofNat n : Rat) = n := rfl

@[simp]
theorem zero_rat : (zero : Rat) = 0 := rfl

@[simp]
theorem one_rat : (one : Rat) = 1 := rfl

theorem ofDecimal_rat (digits places : Nat) :
    (ofDecimal digits places : Rat) = digits / 10 ^ places := by
  change mkRat digits (Nat.pow 10 places) = _
  rw [Rat.mkRat_eq_div]
  simp

theorem le_rat (a b : Rat) : le a b = true ↔ a ≤ b := by
  rw [le, Bool.or_eq_true, lt_rat, eq_rat, le_iff_lt_or_eq]

theorem rank_rat_lt {a b : Rat} : rank a b = .lt ↔ a < b := by
  simp only [rank]
  split
  · simp [*]
  · split <;> simp [*]

theorem larger_rat (a b : Rat) : larger a b = max a b := by
  unfold larger
  rw [defined_rat, Bool.not_true, Bool.or_false]
  by_cases less : a < b
  · rw [if_pos ((lt_rat a b).mpr less), max_eq_right less.le]
  · rw [if_neg (fun other => less ((lt_rat a b).mp other)), max_eq_left (not_lt.mp less)]

theorem size_rat (a : Rat) : size a = |a| := by
  unfold size
  split
  · next negative =>
    rw [lt_rat] at negative
    exact (zero_sub a).trans (abs_of_neg negative).symm
  · next positive =>
    rw [lt_rat, not_lt] at positive
    exact (abs_of_nonneg positive).symm

theorem clamp_mem_rat {low high : Rat} (ordered : low ≤ high) (a : Rat) :
    low ≤ clamp low high a ∧ clamp low high a ≤ high := by
  unfold clamp
  split
  · exact ⟨le_rfl, ordered⟩
  · next least =>
    rw [lt_rat, not_lt] at least
    split
    · exact ⟨ordered, le_rfl⟩
    · next most =>
      rw [lt_rat, not_lt] at most
      exact ⟨least, most⟩

theorem clamp_rat_of_mem {low high a : Rat} (least : low ≤ a) (most : a ≤ high) :
    clamp low high a = a := by
  unfold clamp
  rw [if_neg (fun below => least.not_gt ((lt_rat a low).mp below)),
    if_neg (fun above => most.not_gt ((lt_rat high a).mp above))]

/-- Sums do not depend on the order in which they are added up, as rounding takes no part. -/
structure Exact (α : Type) [Quantity α] : Prop where
  assoc : ∀ a b c : α, a + b + c = a + (b + c)
  comm : ∀ a b : α, a + b = b + a
  zero : ∀ a : α, a + Quantity.zero = a

theorem exact_rat : Exact Rat where
  assoc := add_assoc
  comm := add_comm
  zero := add_zero

namespace Exact

variable {α : Type} [Quantity α]

theorem foldl (exact : Exact α) (start : α) (terms : List α) :
    terms.foldl (· + ·) start = start + sum terms := by
  unfold sum
  induction terms generalizing start with
  | nil => exact (exact.zero start).symm
  | cons first rest ih =>
    rw [List.foldl_cons, List.foldl_cons, ih (start + first), ih (Quantity.zero + first),
      exact.comm Quantity.zero, exact.zero, exact.assoc]

theorem sum_singleton (exact : Exact α) (term : α) : sum [term] = term :=
  (exact.comm Quantity.zero term).trans (exact.zero term)

theorem sum_append (exact : Exact α) (first second : List α) :
    sum (first ++ second) = sum first + sum second := by
  rw [sum, List.foldl_append, exact.foldl]
  rfl

theorem sum_perm (exact : Exact α) {first second : List α} (shuffled : first.Perm second) :
    sum first = sum second := by
  have : Std.Associative fun a b : α => a + b := ⟨exact.assoc⟩
  have : Std.Commutative fun a b : α => a + b := ⟨exact.comm⟩
  exact shuffled.foldl_op_eq

theorem sum_zeros (exact : Exact α) {terms : List α}
    (zeros : ∀ term ∈ terms, term = Quantity.zero) : sum terms = Quantity.zero := by
  unfold sum
  induction terms with
  | nil => rfl
  | cons first rest ih =>
    rw [List.foldl_cons, zeros first List.mem_cons_self, exact.zero]
    exact ih fun term later => zeros term (List.mem_cons_of_mem _ later)

end Exact

theorem foldl_add_rat (start : Rat) (costs : List Rat) :
    costs.foldl (· + ·) start = start + costs.sum := by
  induction costs generalizing start with
  | nil => exact (add_zero start).symm
  | cons first rest ih =>
    rw [List.foldl_cons, ih, List.sum_cons]
    exact add_assoc start first rest.sum

theorem sum_rat (costs : List Rat) : sum costs = costs.sum := by
  rw [sum, foldl_add_rat]
  exact zero_add costs.sum

end Quantity

/-- The best of several items is less than all before it, and no more than those behind it. -/
theorem bestBy_split {β γ : Type} [LinearOrder γ] {better : β → β → Bool} {key : β → γ}
    (better_iff : ∀ a b, better a b = true ↔ key a < key b) {items : List β} {best : β}
    (found : bestBy better items = some best) : ∃ before after, items = before ++ best :: after ∧
      (∀ item ∈ before, key best < key item) ∧ ∀ item ∈ items, key best ≤ key item := by
  cases items with
  | nil => cases found
  | cons first rest =>
    rw [bestBy, Option.some.injEq] at found
    induction rest generalizing first with
    | nil =>
      obtain rfl := found
      exact ⟨[], [], rfl, by simp, by simp⟩
    | cons next rest ih =>
      rw [List.foldl_cons] at found
      split at found
      · next less =>
        rw [better_iff] at less
        obtain ⟨before, after, split, ahead, all⟩ := ih next found
        have below := (all next List.mem_cons_self).trans_lt less
        exact ⟨first :: before, after, by rw [split]; rfl,
          List.forall_mem_cons.mpr ⟨below, ahead⟩, List.forall_mem_cons.mpr ⟨below.le, all⟩⟩
      · next more =>
        rw [better_iff, not_lt] at more
        obtain ⟨before, after, split, ahead, all⟩ := ih first found
        have least : key best ≤ key first := all first List.mem_cons_self
        have all' : ∀ item ∈ first :: next :: rest, key best ≤ key item :=
          List.forall_mem_cons.mpr ⟨least, List.forall_mem_cons.mpr
            ⟨least.trans more, fun item later => all item (List.mem_cons_of_mem _ later)⟩⟩
        cases before with
        | nil =>
          obtain ⟨rfl, rfl⟩ := List.cons_eq_cons.mp split
          exact ⟨[], next :: rest, rfl, by simp, all'⟩
        | cons head before =>
          obtain ⟨rfl, rfl⟩ := List.cons_eq_cons.mp split
          have strict := List.forall_mem_cons.mp ahead
          exact ⟨first :: next :: before, after, rfl, List.forall_mem_cons.mpr ⟨strict.1,
            List.forall_mem_cons.mpr ⟨strict.1.trans_le more, strict.2⟩⟩, all'⟩

theorem bestBy_lt_le {costs : List Rat} {best : Rat}
    (found : bestBy Quantity.lt costs = some best) :
    ∀ cost ∈ costs, best ≤ cost := by
  obtain ⟨_, _, -, -, least⟩ := bestBy_split Quantity.lt_rat found
  exact least

/-- The cost of a chain of conversions; a negative one counts as nothing. -/
def Conversion.chainCost (stepCost : Conversion → Rat) (steps : List Conversion) : Rat :=
  (steps.map fun step => max (stepCost step) 0).sum

theorem Route.cost_ofSteps (stepCost : Conversion → Rat) (steps : List Conversion) :
    (Route.ofSteps stepCost steps).cost = Conversion.chainCost stepCost steps := by
  have folded := Quantity.foldl_add_rat 0 (steps.map fun step => max (stepCost step) 0)
  rw [zero_add, List.foldl_map] at folded
  rw [Conversion.chainCost, ← folded]
  simp only [Route.ofSteps, Quantity.larger_rat, Quantity.zero_rat]

theorem Route.cost_nonneg (stepCost : Conversion → Rat) (steps : List Conversion) :
    0 ≤ (Route.ofSteps stepCost steps).cost := by
  rw [cost_ofSteps]
  refine List.sum_nonneg ?_
  intro cost listed
  obtain ⟨step, -, rfl⟩ := List.mem_map.mp listed
  exact le_max_right _ _

theorem resolveGroup_nonneg {produced : List Form} {consumers : List (List Form)}
    {stepCost : Conversion → Rat} {group : GroupRoutes Rat}
    (success : resolveGroup produced consumers stepCost = .ok group) : 0 ≤ group.cost := by
  have resolves := resolveGroup_ok success
  rw [resolves.cost, Quantity.sum_rat]
  refine List.sum_nonneg ?_
  intro cost listed
  obtain ⟨route, routed, rfl⟩ := List.mem_map.mp listed
  obtain ⟨accepted, -, cheapest⟩ := Sequence.mem_right (routesFrom_ok resolves.routes) routed
  rw [(cheapestRoute_some cheapest).2.2]
  exact Route.cost_nonneg stepCost route.steps

end CrossPlan
