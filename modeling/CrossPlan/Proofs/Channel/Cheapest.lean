import CrossPlan.Proofs.Quantity
import Mathlib.Algebra.GroupWithZero.Nat
import Mathlib.Algebra.Order.Group.Nat
import Mathlib.Algebra.Order.Monoid.Prod

/-!
# Routes are the cheapest

Forms are settled in the order of what it takes to reach them, first in cost and then in steps.  The
route to a form that is settled is therefore as good as any chain of conversions, of whatever
length, and so is the way in which a producer reaches all consumers of a group.
-/

set_option autoImplicit false

namespace CrossPlan

open Sequence

/-! ## What chains and routes take -/

/-- The cost and the steps of a chain of conversions; the cost decides first. -/
def Conversion.measure (stepCost : Conversion → Rat) (steps : List Conversion) : Rat ×ₗ Nat :=
  toLex (chainCost stepCost steps, steps.length)

def Route.measure (route : Route Rat) : Rat ×ₗ Nat := toLex (route.cost, route.steps.length)

namespace Conversion

variable (stepCost : Conversion → Rat)

theorem measure_append (first rest : List Conversion) :
    measure stepCost (first ++ rest) = measure stepCost first + measure stepCost rest := by
  rw [measure, measure, measure, ← toLex_add, Prod.mk_add_mk, List.length_append, chainCost,
    List.map_append, List.sum_append]
  rfl

theorem measure_nonneg (steps : List Conversion) : 0 ≤ measure stepCost steps := by
  have cost : 0 ≤ chainCost stepCost steps := by
    rw [← Route.cost_ofSteps]
    exact Route.cost_nonneg stepCost steps
  exact Prod.Lex.toLex_le_toLex.mpr (cost.lt_or_eq.imp_right fun same => ⟨same, Nat.zero_le _⟩)

end Conversion

variable {stepCost : Conversion → Rat}

namespace Route

theorem measure_extend (route : Route Rat) (step : Conversion) :
    (route.extend stepCost step).measure = route.measure + Conversion.measure stepCost [step] := by
  rw [measure, measure, Conversion.measure, ← toLex_add, Prod.mk_add_mk]
  simp [extend, Conversion.chainCost, Quantity.larger_rat]

theorem measure_le_extend (route : Route Rat) (step : Conversion) :
    route.measure ≤ (route.extend stepCost step).measure := by
  rw [measure_extend]
  exact le_add_of_nonneg_right (Conversion.measure_nonneg stepCost _)

theorem better_iff (a b : Route Rat) : a.better b = true ↔ a.measure < b.measure := by
  simp only [better, measure, Prod.Lex.toLex_lt_toLex, Quantity.rank]
  rcases lt_trichotomy a.cost b.cost with less | equal | more
  · simp [less]
  · simp [equal]
  · simp [more.not_gt, more.ne']

theorem improves_iff (a b : Route Rat) : a.improves b = true ↔ a.measure < b.measure := by
  simp only [improves, measure, Prod.Lex.toLex_lt_toLex, Bool.or_eq_true, Bool.and_eq_true,
    Quantity.lt_rat, Quantity.eq_rat, decide_eq_true_eq]

end Route

/-! ## Entering routes -/

section Enter

variable {form : Form} {route : Route Rat} {known : List (Form × Route Rat)}

theorem exists_enter :
    ∃ held, (form, held) ∈ enter form route known ∧ held.measure ≤ route.measure := by
  induction known with
  | nil => exact ⟨route, List.mem_cons_self, le_refl _⟩
  | cons entry rest ih =>
    rw [enter]
    split
    · refine ⟨_, List.mem_cons_self, ?_⟩
      split
      · exact le_refl _
      · next worse => exact not_lt.mp fun less => worse ((Route.improves_iff _ _).mpr less)
    · obtain ⟨held, listed, good⟩ := ih
      exact ⟨held, List.mem_cons_of_mem _ listed, good⟩

theorem exists_enter_of_mem {entry : Form × Route Rat} (listed : entry ∈ known) :
    ∃ held, (entry.1, held) ∈ enter form route known ∧ held.measure ≤ entry.2.measure := by
  induction known with
  | nil => cases listed
  | cons first rest ih =>
    rw [enter]
    split
    · next same =>
      rcases List.mem_cons.mp listed with rfl | later
      · refine ⟨if route.improves entry.2 then route else entry.2,
          same.symm ▸ List.mem_cons_self, ?_⟩
        split
        · next better => exact ((Route.improves_iff _ _).mp better).le
        · exact le_refl _
      · exact ⟨entry.2, List.mem_cons_of_mem _ later, le_refl _⟩
    · rcases List.mem_cons.mp listed with rfl | later
      · exact ⟨entry.2, List.mem_cons_self, le_refl _⟩
      · obtain ⟨held, member, good⟩ := ih later
        exact ⟨held, List.mem_cons_of_mem _ member, good⟩

end Enter

section Follow

variable {route : Route Rat} {settled : List Form} {steps : List Conversion}
  {known : List (Form × Route Rat)}

def ReachedWithin (bound : Rat ×ₗ Nat) (form : Form) (known : List (Form × Route Rat)) : Prop :=
  ∃ held, (form, held) ∈ known ∧ held.measure ≤ bound

theorem ReachedWithin.follow {bound : Rat ×ₗ Nat} {form : Form}
    (within : ReachedWithin bound form known) (step : Conversion) :
    ReachedWithin bound form (route.follow stepCost settled known step) := by
  rw [Route.follow]
  split
  · exact within
  · obtain ⟨held, listed, good⟩ := within
    obtain ⟨held', listed', good'⟩ := exists_enter_of_mem listed
    exact ⟨held', listed', good'.trans good⟩

theorem ReachedWithin.follow_all {bound : Rat ×ₗ Nat} {form : Form}
    (within : ReachedWithin bound form known) :
    ReachedWithin bound form (steps.foldl (route.follow stepCost settled) known) :=
  foldl_keeps (ReachedWithin bound form) (fun step _ _ held => held.follow step) within

theorem reachedWithin_follow {step : Conversion} (listed : step ∈ steps)
    (fresh : step.target ∉ settled) :
    ReachedWithin (route.extend stepCost step).measure step.target
      (steps.foldl (route.follow stepCost settled) known) := by
  refine foldl_reaches (fun _ => True)
    (ReachedWithin (route.extend stepCost step).measure step.target) listed
    (fun _ _ _ _ => trivial) (fun other _ _ _ held => held.follow other) ?_ trivial
  intro state _
  rw [Route.follow, if_neg fun done => fresh (List.contains_iff_mem.mp done)]
  exact exists_enter

end Follow

theorem nearest?_le {settled : List Form} {known : List (Form × Route Rat)}
    {entry : Form × Route Rat} (found : nearest? settled known = some entry) :
    ∀ other ∈ known, other.1 ∉ settled → entry.2.measure ≤ other.2.measure := by
  intro other listed fresh
  obtain ⟨_, _, -, -, least⟩ := bestBy_split (fun a b => Route.better_iff a.2 b.2) found
  exact least other (List.mem_filter.mpr ⟨listed, by simpa using fresh⟩)

/-! ## Settling forms in order -/

/-- Settled forms take no more than the others, and what one step leads to from a settled form is
known with a route that takes no more than through it. -/
structure Ranked (stepCost : Conversion → Rat) (source : Form) (settled : List Form)
    (known : List (Form × Route Rat)) : Prop extends Explored stepCost source settled known where
  origin : ReachedWithin 0 source known
  nearer : ∀ entry ∈ known, ∀ other ∈ known, entry.1 ∈ settled → other.1 ∉ settled →
    entry.2.measure ≤ other.2.measure
  passed : ∀ entry ∈ known, entry.1 ∈ settled → ∀ step : Conversion, step.source = entry.1 →
    ReachedWithin (entry.2.extend stepCost step).measure step.target known

namespace Ranked

variable {source : Form} {settled : List Form} {known : List (Form × Route Rat)}

theorem first (stepCost : Conversion → Rat) (source : Form) :
    Ranked stepCost source [] [(source, .start)] where
  toExplored := .first stepCost source
  origin := ⟨.start, List.mem_cons_self, le_refl _⟩
  nearer := fun _ _ _ _ none => absurd none List.not_mem_nil
  passed := fun _ _ none => absurd none List.not_mem_nil

/-- The form that is settled next takes at least as much as those that are settled. -/
theorem le_nearest (ranked : Ranked stepCost source settled known) {form : Form}
    {route : Route Rat} (found : nearest? settled known = some (form, route))
    {entry : Form × Route Rat} (listed : entry ∈ known) (done : entry.1 ∈ form :: settled) :
    entry.2.measure ≤ route.measure := by
  obtain ⟨member, fresh⟩ := nearest?_some found
  rcases List.mem_cons.mp done with same | before
  · rw [List.inj_on_of_nodup_map ranked.once listed member same]
  · exact ranked.nearer entry listed _ member before fresh

theorem turn (ranked : Ranked stepCost source settled known) {form : Form} {route : Route Rat}
    (found : nearest? settled known = some (form, route)) :
    Ranked stepCost source (form :: settled)
      ((Conversion.leaving form).foldl (route.follow stepCost (form :: settled)) known) where
  toExplored := ranked.toExplored.turn found
  origin := ranked.origin.follow_all
  nearer := by
    intro entry listed other listed' done
    rw [mem_follow_of_settled done] at listed
    have below := ranked.le_nearest found listed done
    revert other
    refine forall_mem_follow (fun other before fresh => ?_) fun step _ _ _ => ?_
    · have open_ : other.1 ∉ settled := fun done => fresh (List.mem_cons_of_mem _ done)
      exact below.trans (nearest?_le found other before open_)
    · exact below.trans (route.measure_le_extend step)
  passed := by
    intro entry listed done step leaves
    rw [mem_follow_of_settled done] at listed
    rcases List.mem_cons.mp done with same | before
    · obtain rfl := List.inj_on_of_nodup_map ranked.once listed (nearest?_some found).1 same
      by_cases back : step.target ∈ form :: settled
      · -- a step back leads to a form that was settled at no greater cost
        obtain ⟨other, known', same'⟩ := List.mem_map.mp
          ((ranked.toExplored.turn found).listed step.target back)
        rw [← same'] at back ⊢
        have old := (mem_follow_of_settled back).mp known'
        exact ⟨other.2, known', (ranked.le_nearest found old back).trans
          (route.measure_le_extend step)⟩
      · exact reachedWithin_follow (Conversion.mem_leaving.mpr leaves) back
    · exact (ranked.passed entry listed before step leaves).follow_all

/-- Along any chain there is a route that takes no more, to its end or to a form that is not
settled. -/
theorem exists_le (ranked : Ranked stepCost source settled known) {steps : List Conversion}
    {target : Form} {entry : Form × Route Rat} (listed : entry ∈ known)
    (chained : Conversion.chains steps entry.1 target = true) :
    ∃ other ∈ known, other.2.measure ≤ entry.2.measure + Conversion.measure stepCost steps ∧
      (other.1 = target ∨ other.1 ∉ settled) := by
  induction steps generalizing entry with
  | nil =>
    exact ⟨entry, listed, le_add_of_nonneg_right (Conversion.measure_nonneg _ _),
      Or.inl (beq_iff_eq.mp chained)⟩
  | cons step rest ih =>
    rw [Conversion.chains, Bool.and_eq_true, beq_iff_eq] at chained
    by_cases done : entry.1 ∈ settled
    · obtain ⟨route, member, good⟩ := ranked.passed entry listed done step chained.1
      obtain ⟨other, member', good', ends⟩ := ih member chained.2
      have split : Conversion.measure stepCost (step :: rest) =
          Conversion.measure stepCost [step] + Conversion.measure stepCost rest :=
        Conversion.measure_append stepCost [step] rest
      refine ⟨other, member', good'.trans ?_, ends⟩
      rw [split, ← add_assoc, ← Route.measure_extend]
      exact add_le_add_left good _
    · exact ⟨entry, listed, le_add_of_nonneg_right (Conversion.measure_nonneg _ _), Or.inr done⟩

theorem settle_le (ranked : Ranked stepCost source settled known) {accepted : List Form}
    {turns : Nat} (refused : ∀ form ∈ settled, form ∉ accepted) {route : Route Rat}
    (found : settle accepted stepCost turns settled known = some route) {target : Form}
    (accepts : target ∈ accepted) {steps : List Conversion}
    (chained : Conversion.chains steps source target = true) :
    route.measure ≤ Conversion.measure stepCost steps := by
  induction turns generalizing settled known with
  | zero => cases found
  | succ turns ih =>
    rw [settle] at found
    split at found
    · cases found
    · next form nearest next =>
      split at found
      · cases found
        -- a chain leaves the settled forms somewhere, and the nearest is no further than that place
        obtain ⟨origin, member, nothing⟩ := ranked.origin
        obtain ⟨other, member', good, ends⟩ := ranked.exists_le member chained
        have fresh : other.1 ∉ settled :=
          ends.elim (fun same done => refused _ done (same ▸ accepts)) id
        calc route.measure ≤ other.2.measure := nearest?_le next other member' fresh
          _ ≤ origin.measure + Conversion.measure stepCost steps := good
          _ ≤ 0 + Conversion.measure stepCost steps := add_le_add_left nothing _
          _ = Conversion.measure stepCost steps := zero_add _
      · next refuses =>
        refine ih (ranked.turn next) (List.forall_mem_cons.mpr ⟨fun accepts => refuses ?_,
          refused⟩) found
        exact List.contains_iff_mem.mpr accepts

end Ranked

/-- A route to an accepted form that takes as little as any chain of conversions to one. -/
structure Route.Cheapest (stepCost : Conversion → Rat) (source : Form) (accepted : List Form)
    (route : Route Rat) : Prop where
  leads : ∃ target ∈ accepted, Conversion.chains route.steps source target = true
  cost : route.cost = Conversion.chainCost stepCost route.steps
  least : ∀ target ∈ accepted, ∀ steps, Conversion.chains steps source target = true →
    route.measure ≤ Conversion.measure stepCost steps

theorem cheapest_of_cheapestRoute {source : Form} {accepted : List Form} {route : Route Rat}
    (found : cheapestRoute source accepted stepCost = some route) :
    route.Cheapest stepCost source accepted := by
  obtain ⟨chained, accepts, same⟩ := cheapestRoute_some found
  refine ⟨⟨_, accepts, chained⟩, ?_, fun target listed steps chained' => ?_⟩
  · rw [← Route.cost_ofSteps, ← same]
  · exact (Ranked.first stepCost source).settle_le
      (fun _ none => absurd none List.not_mem_nil) found listed chained'

theorem cheapestRoute_none_iff {source : Form} {accepted : List Form} :
    cheapestRoute source accepted stepCost = none ↔
      ∀ target ∈ accepted, ∀ steps, Conversion.chains steps source target = false := by
  rw [← Option.not_isSome_iff_eq_none, cheapestRoute_isSome, not_not]
  constructor
  · rintro rfl
    exact fun _ none => absurd none List.not_mem_nil
  · intro unreached
    refine List.eq_nil_iff_forall_not_mem.mpr fun target listed => ?_
    obtain ⟨steps, chained⟩ := Conversion.exists_chain source target
    rw [unreached target listed steps] at chained
    cases chained

/-! ## Groups of consumers -/

def Serves (form : Form) (consumers : List (List Form)) (ways : List (List Conversion)) : Prop :=
  List.Forall₂ (fun accepted steps => ∃ target ∈ accepted,
    Conversion.chains steps form target = true) consumers ways

def waysMeasure (stepCost : Conversion → Rat) (ways : List (List Conversion)) : Rat ×ₗ Nat :=
  toLex ((ways.map (Conversion.chainCost stepCost)).sum, (ways.map List.length).sum)

namespace GroupRoutes

def measure (group : GroupRoutes Rat) : Rat ×ₗ Nat := toLex (group.cost, group.steps)

/-- The routes of a group are the cheapest from their form, they take together as little as any
chains from any form of the producer, and less than any chains from the forms before theirs. -/
structure Optimal (stepCost : Conversion → Rat) (produced : List Form)
    (consumers : List (List Form)) (group : GroupRoutes Rat) : Prop where
  routes : List.Forall₂ (fun accepted route => route.Cheapest stepCost group.form accepted)
    consumers group.routes
  cost : group.cost = (group.routes.map (·.cost)).sum
  least : ∀ form ∈ produced, ∀ ways, Serves form consumers ways →
    group.measure ≤ waysMeasure stepCost ways
  first : ∃ before after, produced = before ++ group.form :: after ∧
    ∀ form ∈ before, ∀ ways, Serves form consumers ways →
      group.measure < waysMeasure stepCost ways

end GroupRoutes

theorem waysMeasure_cons (steps : List Conversion) (ways : List (List Conversion)) :
    waysMeasure stepCost (steps :: ways) =
      Conversion.measure stepCost steps + waysMeasure stepCost ways := by
  rw [waysMeasure, waysMeasure, Conversion.measure, ← toLex_add, Prod.mk_add_mk, List.map_cons,
    List.map_cons, List.sum_cons, List.sum_cons]

theorem waysMeasure_eq_sum (ways : List (List Conversion)) :
    waysMeasure stepCost ways = (ways.map (Conversion.measure stepCost)).sum := by
  induction ways with
  | nil => rfl
  | cons steps rest ih => rw [waysMeasure_cons, ih, List.map_cons, List.sum_cons]

namespace GroupRoutes

theorem better_iff (a b : GroupRoutes Rat) : a.better b = true ↔ a.measure < b.measure := by
  simp only [better, measure, Prod.Lex.toLex_lt_toLex, Bool.or_eq_true, Bool.and_eq_true,
    Quantity.lt_rat, Quantity.eq_rat, decide_eq_true_eq]

theorem measure_eq_sum {group : GroupRoutes Rat}
    (cost : group.cost = (group.routes.map (·.cost)).sum) :
    group.measure = (group.routes.map Route.measure).sum := by
  have parts : ∀ routes : List (Route Rat), (routes.map Route.measure).sum =
      toLex ((routes.map (·.cost)).sum, (routes.map fun route => route.steps.length).sum) := by
    intro routes
    induction routes with
    | nil => rfl
    | cons route rest ih =>
      rw [List.map_cons, List.sum_cons, ih, Route.measure, ← toLex_add, Prod.mk_add_mk,
        List.map_cons, List.sum_cons, List.map_cons, List.sum_cons]
  rw [parts, measure, cost]
  rfl

end GroupRoutes

section Offers

variable {consumers : List (List Form)} {form : Form} {group : GroupRoutes Rat}
  {ways : List (List Conversion)}

/-- What a form allows for takes as little as any chains from it. -/
theorem offer?_le (offered : offer? stepCost consumers form = some group)
    (serves : Serves form consumers ways) : group.measure ≤ waysMeasure stepCost ways := by
  obtain ⟨rfl, routes, cost⟩ := offer?_some offered
  rw [Quantity.sum_rat] at cost
  have each : List.Forall₂ (fun route steps => route.measure ≤ Conversion.measure stepCost steps)
      group.routes ways := by
    refine (forall₂_trans (routesFrom_ok routes).flip serves).imp ?_
    rintro route steps ⟨accepted, reached, target, listed, chained⟩
    exact (cheapest_of_cheapestRoute reached).least target listed steps chained
  rw [GroupRoutes.measure_eq_sum cost, waysMeasure_eq_sum]
  exact (List.forall₂_map_left_iff.mpr (List.forall₂_map_right_iff.mpr each)).sum_le_sum

theorem exists_offer (stepCost : Conversion → Rat) (serves : Serves form consumers ways) :
    ∃ group, offer? stepCost consumers form = some group := by
  have accepting : ∀ accepted ∈ consumers, accepted ≠ [] := by
    intro accepted listed
    obtain ⟨steps, -, target, accepts, -⟩ := mem_left serves listed
    exact List.ne_nil_of_mem accepts
  obtain ⟨routes, reached⟩ : ∃ routes : List (Route Rat),
      routesFrom stepCost form consumers = .ok routes := routesFrom_isOk form accepting
  exact ⟨_, by rw [offer?, reached]⟩

end Offers

variable {produced : List Form} {consumers : List (List Form)}

theorem optimal_of_resolveGroup {group : GroupRoutes Rat}
    (success : resolveGroup produced consumers stepCost = .ok group) :
    group.Optimal stepCost produced consumers := by
  have resolves := resolveGroup_ok success
  obtain ⟨before, after, split, ahead, least⟩ :=
    bestBy_split GroupRoutes.better_iff (tryForms_ok_iff.mp success)
  rw [Option.toList_none, List.nil_append] at split least
  obtain ⟨front, back, rfl, early, late⟩ := List.filterMap_eq_append_iff.mp split
  obtain ⟨between, form, rest, rfl, empty, here, -⟩ := List.filterMap_eq_cons_iff.mp late
  obtain ⟨rfl, -, -⟩ := offer?_some here
  refine ⟨(routesFrom_ok resolves.routes).imp fun _ _ reached => cheapest_of_cheapestRoute reached,
    resolves.cost.trans (Quantity.sum_rat _), ?_, front ++ between, rest,
    (List.append_assoc _ _ _).symm, ?_⟩
  · intro form listed ways serves
    obtain ⟨other, offered⟩ := exists_offer stepCost serves
    exact (least other (List.mem_filterMap.mpr ⟨form, listed, offered⟩)).trans
      (offer?_le offered serves)
  · intro form listed ways serves
    obtain ⟨other, offered⟩ := exists_offer stepCost serves
    rcases List.mem_append.mp listed with earlier | middle
    -- what forms before the one taken offer is worse, and a form without an offer serves nobody
    · have among : other ∈ before := early ▸ List.mem_filterMap.mpr ⟨form, earlier, offered⟩
      exact (ahead other among).trans_le (offer?_le offered serves)
    · rw [empty form middle] at offered
      cases offered

theorem not_serves_of_resolveGroup {place : Nat}
    (failed : resolveGroup produced consumers stepCost = .error place) :
    ∀ form ∈ produced, ∀ ways, ¬ Serves form consumers ways := by
  intro form listed ways serves
  obtain ⟨group, offered⟩ := exists_offer stepCost serves
  have some : produced.filterMap (offer? stepCost consumers) ≠ [] :=
    List.ne_nil_of_mem (List.mem_filterMap.mpr ⟨form, listed, offered⟩)
  obtain ⟨best, found⟩ := Option.isSome_iff_exists.mp (bestBy_isSome.mpr some)
  cases failed.symm.trans (tryForms_ok_iff.mpr found)

theorem missed_of_resolveGroup (present : consumers ≠ []) {place : Nat}
    (failed : resolveGroup produced consumers stepCost = .error place) :
    ∃ accepted, consumers[place]? = some accepted ∧ ∀ form ∈ produced, ∀ target ∈ accepted,
      ∀ steps, Conversion.chains steps form target = false := by
  rcases tryForms_error failed with ⟨rfl, rfl⟩ | ⟨form, -, misses⟩
  · cases consumers with
    | nil => exact absurd rfl present
    | cons accepted rest => exact ⟨accepted, rfl, fun _ none => absurd none List.not_mem_nil⟩
  · obtain ⟨accepted, here, none⟩ := routesFrom_error misses
    have refusing : accepted = [] := by
      rwa [← Option.not_isSome_iff_eq_none, cheapestRoute_isSome, not_not] at none
    exact ⟨accepted, here, fun _ _ => by simp [refusing]⟩

/-- The route that is found from a form is the cheapest to an accepted form, if there is any.  The
forms and routes found for a group are together the best that the producer has, where one of its
forms reaches all consumers; else a consumer is named that none of them reaches. -/
theorem routes_optimal (stepCost : Conversion → Rat) (produced : List Form)
    {consumers : List (List Form)} (present : consumers ≠ []) :
    (∀ source accepted,
      (∀ route, cheapestRoute source accepted stepCost = some route →
        route.Cheapest stepCost source accepted) ∧
      (cheapestRoute source accepted stepCost = none ↔
        ∀ target ∈ accepted, ∀ steps, Conversion.chains steps source target = false) ∧
      ∀ turns, Form.all.length ≤ turns →
        settle accepted stepCost turns [] [(source, .start)] =
          cheapestRoute source accepted stepCost) ∧
    (∀ group, resolveGroup produced consumers stepCost = .ok group →
      group.Optimal stepCost produced consumers) ∧
    ((∃ place, resolveGroup produced consumers stepCost = .error place) ↔
      ∀ form ∈ produced, ∀ ways, ¬ Serves form consumers ways) ∧
    ∀ place, resolveGroup produced consumers stepCost = .error place →
      ∃ accepted, consumers[place]? = some accepted ∧ ∀ form ∈ produced, ∀ target ∈ accepted,
        ∀ steps, Conversion.chains steps form target = false := by
  refine ⟨fun source accepted => ⟨fun _ => cheapest_of_cheapestRoute, cheapestRoute_none_iff,
    fun turns enough => ?_⟩, fun _ => optimal_of_resolveGroup, ⟨?_, fun unserved => ?_⟩,
    fun _ => missed_of_resolveGroup present⟩
  · obtain ⟨more, rfl⟩ := Nat.exists_eq_add_of_le enough
    exact settle_enough (.first stepCost source) (Nat.le_refl _) more
  · rintro ⟨place, failed⟩
    exact not_serves_of_resolveGroup failed
  · cases outcome : resolveGroup produced consumers stepCost with
    | error place => exact ⟨place, rfl⟩
    | ok group =>
      have optimal := optimal_of_resolveGroup outcome
      have serves : Serves group.form consumers (group.routes.map (·.steps)) :=
        List.forall₂_map_right_iff.mpr (optimal.routes.imp fun _ _ cheapest => cheapest.leads)
      exact absurd serves (unserved _ (resolveGroup_ok outcome).form _)

def refunding : Conversion → Rat
  | .stream => -1
  | _ => 1

/-- Two consumers are served at least cost from the second form of the producer. -/
theorem routes_optimal_refunding : [[Form.partitioned], [Form.stream]] ≠ [] ∧
    ∃ group, resolveGroup [.stream, .collection] [[.partitioned], [.stream]] refunding = .ok group ∧
      group.form = .collection ∧ group.cost = 1 ∧
      group.Optimal refunding [.stream, .collection] [[.partitioned], [.stream]] := by
  refine ⟨by simp, ?_⟩
  have found : (match resolveGroup [.stream, .collection] [[.partitioned], [.stream]] refunding with
      | .ok group => decide (group.form = .collection ∧ group.cost = 1)
      | .error _ => false) = true := by decide +kernel
  split at found
  · next group success =>
    obtain ⟨form, cost⟩ := of_decide_eq_true found
    exact ⟨group, success, form, cost,
      (routes_optimal refunding [.stream, .collection] (by simp)).2.1 group success⟩
  · cases found

end CrossPlan
