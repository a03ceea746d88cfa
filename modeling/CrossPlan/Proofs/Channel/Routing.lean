import CrossPlan.Channel.Route
import CrossPlan.Proofs.Sequence

/-!
# Where routes lead

A route that is found leads from a form of the producer through matching conversions to a form that
the consumer accepts, and each consumer of a group has a route from the same form.
-/

set_option autoImplicit false

namespace CrossPlan

open Sequence

section Best

variable {β : Type} {better : β → β → Bool}

theorem foldl_best_mem {first : β} {rest : List β} :
    rest.foldl (fun best next => if better next best then next else best) first ∈
      first :: rest := by
  induction rest generalizing first with
  | nil => exact List.mem_cons_self
  | cons next rest ih =>
    rw [List.foldl_cons]
    split
    · exact List.mem_cons_of_mem _ ih
    · rcases List.mem_cons.mp ih with same | later
      · rw [same]
        exact List.mem_cons_self
      · exact List.mem_cons_of_mem _ (List.mem_cons_of_mem _ later)

theorem bestBy_mem {items : List β} {best : β} (found : bestBy better items = some best) :
    best ∈ items := by
  cases items with
  | nil => cases found
  | cons first rest =>
    rw [bestBy, Option.some.injEq] at found
    rw [← found]
    exact foldl_best_mem

theorem bestBy_isSome {items : List β} : (bestBy better items).isSome = true ↔ items ≠ [] := by
  cases items <;> simp [bestBy]

end Best

namespace Conversion

theorem chains_append {first rest : List Conversion} {source target : Form} :
    chains (first ++ rest) source target = true ↔
      ∃ between, chains first source between = true ∧ chains rest between target = true := by
  induction first generalizing source with
  | nil => simp [chains]
  | cons step first ih =>
    simp only [List.cons_append, chains, Bool.and_eq_true, ih]
    constructor
    · rintro ⟨starts, between, now, later⟩
      exact ⟨between, ⟨starts, now⟩, later⟩
    · rintro ⟨between, ⟨starts, now⟩, later⟩
      exact ⟨starts, between, now, later⟩

theorem chains_concat {steps : List Conversion} {source : Form} {step : Conversion}
    (chained : chains steps source step.source = true) :
    chains (steps ++ [step]) source step.target = true :=
  chains_append.mpr ⟨step.source, chained, by simp [chains]⟩

theorem endOf_of_chains {steps : List Conversion} {source target : Form}
    (chained : chains steps source target = true) : endOf source steps = target := by
  induction steps generalizing source with
  | nil => exact beq_iff_eq.mp chained
  | cons step rest ih =>
    rw [chains, Bool.and_eq_true] at chained
    exact ih chained.2

theorem exists_chain (source target : Form) : ∃ steps, chains steps source target = true := by
  have gathered : ∃ steps, chains steps source .collection = true := by
    cases source
    · exact ⟨[.collect], rfl⟩
    · exact ⟨[], rfl⟩
    · exact ⟨[.gather], rfl⟩
  have shared : ∃ steps, chains steps .collection target = true := by
    cases target
    · exact ⟨[.stream], rfl⟩
    · exact ⟨[], rfl⟩
    · exact ⟨[.parallelize], rfl⟩
  obtain ⟨first, now⟩ := gathered
  obtain ⟨rest, later⟩ := shared
  exact ⟨first ++ rest, chains_append.mpr ⟨_, now, later⟩⟩

theorem mem_leaving {step : Conversion} {form : Form} :
    step ∈ leaving form ↔ step.source = form := by
  rw [leaving, List.mem_filter, beq_iff_eq, and_iff_right]
  cases step <;> decide

end Conversion

theorem Form.mem_all (form : Form) : form ∈ Form.all := by
  cases form <;> decide

theorem Form.mem_of_length_le {forms : List Form} (distinct : forms.Nodup)
    (full : Form.all.length ≤ forms.length) (form : Form) : form ∈ forms :=
  ((List.subperm_of_subset distinct fun form _ => form.mem_all).perm_of_length_le full).mem_iff.mpr
    form.mem_all

variable {α : Type} [Quantity α] {stepCost : Conversion → α}

def Route.ofSteps (stepCost : Conversion → α) (steps : List Conversion) : Route α :=
  ⟨steps, steps.foldl (fun cost step => cost + Quantity.larger (stepCost step) Quantity.zero)
    Quantity.zero⟩

theorem Route.ofSteps_concat (steps : List Conversion) (step : Conversion) :
    ofSteps stepCost (steps ++ [step]) = (ofSteps stepCost steps).extend stepCost step := by
  simp only [ofSteps, extend, List.foldl_append, List.foldl_cons, List.foldl_nil]

/-! ## Entering routes -/

section Enter

variable {form : Form} {route : Route α} {known : List (Form × Route α)}

theorem mem_enter_of_ne {entry : Form × Route α} (other : entry.1 ≠ form) :
    entry ∈ enter form route known ↔ entry ∈ known := by
  have apart : ∀ held : Route α, entry ≠ (form, held) := fun held same => other (same ▸ rfl)
  induction known with
  | nil => simp [enter, apart]
  | cons first rest ih =>
    rw [enter]
    split
    · next same =>
      have old : entry ≠ first := fun equal => other (equal ▸ same)
      simp [apart, old]
    · simp only [List.mem_cons, ih]

theorem mem_enter {entry : Form × Route α} (listed : entry ∈ enter form route known) :
    entry ∈ known ∨ entry = (form, route) := by
  induction known with
  | nil => exact Or.inr (List.mem_singleton.mp listed)
  | cons first rest ih =>
    rw [enter] at listed
    split at listed
    · next same =>
      rcases List.mem_cons.mp listed with rfl | later
      · split
        · exact Or.inr rfl
        · exact Or.inl (List.mem_cons.mpr (Or.inl (Prod.ext same.symm rfl)))
      · exact Or.inl (List.mem_cons_of_mem _ later)
    · rcases List.mem_cons.mp listed with rfl | later
      · exact Or.inl List.mem_cons_self
      · exact (ih later).imp_left (List.mem_cons_of_mem _)

theorem map_fst_enter : (enter form route known).map Prod.fst =
    if form ∈ known.map Prod.fst then known.map Prod.fst else known.map Prod.fst ++ [form] := by
  induction known with
  | nil => rfl
  | cons first rest ih =>
    rw [enter]
    split
    · next same => simp [same]
    · next other =>
      simp only [List.map_cons, ih, List.mem_cons, Ne.symm other, false_or]
      split <;> rfl

theorem mem_map_fst_enter {other : Form} : other ∈ (enter form route known).map Prod.fst ↔
    other = form ∨ other ∈ known.map Prod.fst := by
  rw [map_fst_enter]
  split
  · next listed => exact (or_iff_right_of_imp fun same => same ▸ listed).symm
  · rw [List.mem_append, List.mem_singleton, or_comm]

theorem nodup_enter (distinct : (known.map Prod.fst).Nodup) :
    ((enter form route known).map Prod.fst).Nodup := by
  rw [map_fst_enter]
  split
  · exact distinct
  · next fresh =>
    exact List.nodup_append.mpr ⟨distinct, List.nodup_singleton _,
      fun other listed _ one same => fresh (List.mem_singleton.mp one ▸ same ▸ listed)⟩

end Enter

/-! ## Settling forms -/

section Follow

variable {route : Route α} {settled : List Form} {steps : List Conversion}
  {known : List (Form × Route α)}

theorem mem_follow_of_settled {entry : Form × Route α} (done : entry.1 ∈ settled) :
    entry ∈ steps.foldl (route.follow stepCost settled) known ↔ entry ∈ known := by
  refine foldl_keeps (fun state => entry ∈ state ↔ entry ∈ known) ?_ Iff.rfl
  intro step _ state same
  rw [Route.follow]
  split
  · exact same
  · next open_ =>
    have other : entry.1 ≠ step.target := fun equal =>
      open_ (List.contains_iff_mem.mpr (equal ▸ done))
    exact (mem_enter_of_ne other).trans same

theorem forall_mem_follow {good : Form × Route α → Prop} (old : ∀ entry ∈ known, good entry)
    (new : ∀ step ∈ steps, step.target ∉ settled →
      good (step.target, route.extend stepCost step)) :
    ∀ entry ∈ steps.foldl (route.follow stepCost settled) known, good entry := by
  refine foldl_keeps (fun state => ∀ entry ∈ state, good entry) ?_ old
  intro step listed state held
  rw [Route.follow]
  split
  · exact held
  · next open_ =>
    intro entry entered
    rcases mem_enter entered with before | rfl
    · exact held entry before
    · exact new step listed fun done => open_ (List.contains_iff_mem.mpr done)

theorem mem_follow_of_mem {form : Form} (listed : form ∈ known.map Prod.fst) :
    form ∈ (steps.foldl (route.follow stepCost settled) known).map Prod.fst := by
  refine foldl_keeps (fun state : List (Form × Route α) => form ∈ state.map Prod.fst) ?_ listed
  intro step _ state held
  rw [Route.follow]
  split
  · exact held
  · exact mem_map_fst_enter.mpr (Or.inr held)

theorem nodup_follow (distinct : (known.map Prod.fst).Nodup) :
    ((steps.foldl (route.follow stepCost settled) known).map Prod.fst).Nodup := by
  refine foldl_keeps (fun state : List (Form × Route α) => (state.map Prod.fst).Nodup) ?_ distinct
  intro step _ state held
  rw [Route.follow]
  split
  · exact held
  · exact nodup_enter held

theorem mem_follow_target {step : Conversion} (listed : step ∈ steps) :
    step.target ∈ settled ∨
      step.target ∈ (steps.foldl (route.follow stepCost settled) known).map Prod.fst := by
  refine foldl_reaches (fun _ => True)
    (fun state : List (Form × Route α) =>
      step.target ∈ settled ∨ step.target ∈ state.map Prod.fst) listed
    (fun _ _ _ _ => trivial) ?_ ?_ trivial
  · intro other _ state _ held
    rw [Route.follow]
    split
    · exact held
    · exact held.imp_right fun known => mem_map_fst_enter.mpr (Or.inr known)
  · intro state _
    rw [Route.follow]
    split
    · next done => exact Or.inl (List.contains_iff_mem.mp done)
    · exact Or.inr (mem_map_fst_enter.mpr (Or.inl rfl))

end Follow

theorem nearest?_some {settled : List Form} {known : List (Form × Route α)}
    {entry : Form × Route α} (found : nearest? settled known = some entry) :
    entry ∈ known ∧ entry.1 ∉ settled := by
  obtain ⟨listed, open_⟩ := List.mem_filter.mp (bestBy_mem found)
  exact ⟨listed, by simpa using open_⟩

theorem nearest?_none {settled : List Form} {known : List (Form × Route α)}
    (none : nearest? settled known = none) : ∀ entry ∈ known, entry.1 ∈ settled := by
  have empty : known.filter (fun entry => !settled.contains entry.1) = [] := by
    by_contra some
    rw [nearest?, ← Option.not_isSome_iff_eq_none, bestBy_isSome] at none
    exact none some
  intro entry listed
  simpa using List.filter_eq_nil_iff.mp empty entry listed

/-- What holds of the forms settled and the routes known so far. -/
structure Explored (stepCost : Conversion → α) (source : Form) (settled : List Form)
    (known : List (Form × Route α)) : Prop where
  distinct : settled.Nodup
  listed : ∀ form ∈ settled, form ∈ known.map Prod.fst
  once : (known.map Prod.fst).Nodup
  start : source ∈ known.map Prod.fst
  leads : ∀ entry ∈ known, Conversion.chains entry.2.steps source entry.1 = true ∧
    entry.2 = Route.ofSteps stepCost entry.2.steps
  onward : ∀ step : Conversion, step.source ∈ settled → step.target ∈ known.map Prod.fst

namespace Explored

variable {source : Form} {settled : List Form} {known : List (Form × Route α)}

theorem first (stepCost : Conversion → α) (source : Form) :
    Explored stepCost source [] [(source, .start)] where
  distinct := List.nodup_nil
  listed := fun _ none => absurd none List.not_mem_nil
  once := List.nodup_singleton _
  start := List.mem_singleton.mpr rfl
  leads := by
    rintro entry listed
    obtain rfl := List.mem_singleton.mp listed
    exact ⟨beq_self_eq_true source, rfl⟩
  onward := fun _ none => absurd none List.not_mem_nil

theorem turn (explored : Explored stepCost source settled known) {form : Form} {route : Route α}
    (found : nearest? settled known = some (form, route)) :
    Explored stepCost source (form :: settled)
      ((Conversion.leaving form).foldl (route.follow stepCost (form :: settled)) known) := by
  obtain ⟨member, fresh⟩ := nearest?_some found
  obtain ⟨chained, same⟩ := explored.leads _ member
  have listed : ∀ other ∈ form :: settled, other ∈ known.map Prod.fst :=
    List.forall_mem_cons.mpr ⟨List.mem_map_of_mem member, explored.listed⟩
  refine ⟨List.nodup_cons.mpr ⟨fresh, explored.distinct⟩,
    fun other done => mem_follow_of_mem (listed other done), nodup_follow explored.once,
    mem_follow_of_mem explored.start, forall_mem_follow explored.leads ?_, ?_⟩
  · intro step leaves _
    rw [← Conversion.mem_leaving.mp leaves] at chained
    refine ⟨Conversion.chains_concat chained, ?_⟩
    dsimp only at same
    rw [same, ← Route.ofSteps_concat]
    rfl
  · intro step done
    rcases List.mem_cons.mp done with here | before
    · refine (mem_follow_target (Conversion.mem_leaving.mpr here)).elim (fun done => ?_) id
      exact mem_follow_of_mem (listed _ done)
    · exact mem_follow_of_mem (explored.onward step before)

/-- Where all known forms are settled, chains lead to no others. -/
theorem mem_of_chains (explored : Explored stepCost source settled known)
    (all : ∀ entry ∈ known, entry.1 ∈ settled) {steps : List Conversion} {form target : Form}
    (listed : form ∈ known.map Prod.fst) (chained : Conversion.chains steps form target = true) :
    target ∈ known.map Prod.fst := by
  induction steps generalizing form with
  | nil => rwa [← beq_iff_eq.mp chained]
  | cons step rest ih =>
    rw [Conversion.chains, Bool.and_eq_true, beq_iff_eq] at chained
    obtain ⟨entry, member, rfl⟩ := List.mem_map.mp listed
    exact ih (explored.onward step (chained.1 ▸ all entry member)) chained.2

end Explored

section Settle

variable {source : Form} {accepted settled : List Form} {known : List (Form × Route α)}
  {turns : Nat}

theorem settle_some (explored : Explored stepCost source settled known) {route : Route α}
    (found : settle accepted stepCost turns settled known = some route) :
    ∃ target ∈ accepted, Conversion.chains route.steps source target = true ∧
      route = Route.ofSteps stepCost route.steps := by
  induction turns generalizing settled known with
  | zero => cases found
  | succ turns ih =>
    rw [settle] at found
    split at found
    · cases found
    · next form nearest next =>
      split at found
      · next accepts =>
        cases found
        exact ⟨form, List.contains_iff_mem.mp accepts,
          explored.leads _ (nearest?_some next).1⟩
      · exact ih (explored.turn next) found

/-- With a turn for each form that is not settled an accepted one is reached. -/
theorem settle_isSome (explored : Explored stepCost source settled known)
    (enough : Form.all.length ≤ turns + settled.length)
    (refused : ∀ form ∈ settled, form ∉ accepted) {target : Form} (accepts : target ∈ accepted) :
    (settle accepted stepCost turns settled known).isSome = true := by
  induction turns generalizing settled known with
  | zero =>
    rw [Nat.zero_add] at enough
    have done := Form.mem_of_length_le explored.distinct enough target
    exact absurd accepts (refused target done)
  | succ turns ih =>
    rw [settle]
    split
    · next none =>
      have all := nearest?_none none
      obtain ⟨steps, chained⟩ := Conversion.exists_chain source target
      obtain ⟨entry, member, same⟩ :=
        List.mem_map.mp (explored.mem_of_chains all explored.start chained)
      exact absurd accepts (refused target (same ▸ all entry member))
    · next form nearest next =>
      split
      · rfl
      · next refuses =>
        refine ih (explored.turn next) (by rw [List.length_cons]; omega)
          (List.forall_mem_cons.mpr ⟨fun accepts => refuses ?_, refused⟩)
        exact List.contains_iff_mem.mpr accepts

/-- Further turns than there are forms left change nothing. -/
theorem settle_enough (explored : Explored stepCost source settled known)
    (enough : Form.all.length ≤ turns + settled.length) (more : Nat) :
    settle accepted stepCost (turns + more) settled known =
      settle accepted stepCost turns settled known := by
  induction turns generalizing settled known with
  | zero =>
    rw [Nat.zero_add] at enough
    cases more with
    | zero => rfl
    | succ more =>
      rw [Nat.zero_add]
      simp only [settle]
      split
      · rfl
      · next next =>
        exact absurd (Form.mem_of_length_le explored.distinct enough _) (nearest?_some next).2
  | succ turns ih =>
    rw [Nat.succ_add, settle, settle]
    split
    · rfl
    · next form nearest next =>
      split
      · rfl
      · exact ih (explored.turn next) (by rw [List.length_cons]; omega)

end Settle

theorem cheapestRoute_some {source : Form} {accepted : List Form} {route : Route α}
    (found : cheapestRoute source accepted stepCost = some route) :
    Conversion.chains route.steps source (Conversion.endOf source route.steps) = true ∧
      Conversion.endOf source route.steps ∈ accepted ∧
      route = Route.ofSteps stepCost route.steps := by
  obtain ⟨target, accepts, chained, same⟩ := settle_some (.first stepCost source) found
  rw [Conversion.endOf_of_chains chained]
  exact ⟨chained, accepts, same⟩

theorem cheapestRoute_isSome {source : Form} {accepted : List Form} :
    (cheapestRoute source accepted stepCost).isSome = true ↔ accepted ≠ [] := by
  constructor
  · intro reached
    obtain ⟨route, found⟩ := Option.isSome_iff_exists.mp reached
    exact List.ne_nil_of_mem (cheapestRoute_some found).2.1
  · intro accepting
    obtain ⟨target, accepts⟩ := List.exists_mem_of_ne_nil _ accepting
    exact settle_isSome (.first stepCost source) (Nat.le_refl _)
      (fun _ none => absurd none List.not_mem_nil) accepts

theorem routeTo_ok_iff {source : Form} {consumer : List Form × Nat} {route : Route α} :
    routeTo stepCost source consumer = .ok route ↔
      cheapestRoute source consumer.1 stepCost = some route := by
  rw [routeTo]
  cases cheapestRoute source consumer.1 stepCost <;> simp

theorem routesFrom_ok {source : Form} {consumers : List (List Form)} {routes : List (Route α)}
    (success : routesFrom stepCost source consumers = .ok routes) :
    List.Forall₂ (fun accepted route => cheapestRoute source accepted stepCost = some route)
      consumers routes := by
  rw [routesFrom, mapM_ok_iff] at success
  have named : List.Forall₂ (fun accepted route =>
      cheapestRoute source accepted stepCost = some route) (consumers.zipIdx.map Prod.fst) routes :=
    List.forall₂_map_left_iff.mpr (success.imp fun _ _ found => routeTo_ok_iff.mp found)
  rwa [List.zipIdx_map_fst] at named

theorem routesFrom_isOk (source : Form) {consumers : List (List Form)}
    (accepting : ∀ accepted ∈ consumers, accepted ≠ []) :
    ∃ routes : List (Route α), routesFrom stepCost source consumers = .ok routes := by
  refine exists_mapM_ok ?_
  rintro ⟨accepted, place⟩ listed
  have reached : (cheapestRoute source accepted stepCost).isSome = true :=
    cheapestRoute_isSome.mpr
      (accepting accepted (List.mem_of_getElem? (List.mem_zipIdx_iff_getElem?.mp listed)))
  obtain ⟨route, found⟩ := Option.isSome_iff_exists.mp reached
  exact ⟨route, routeTo_ok_iff.mpr found⟩

theorem routesFrom_error {source : Form} {consumers : List (List Form)} {place : Nat}
    (failed : routesFrom stepCost source consumers = .error place) :
    ∃ accepted, consumers[place]? = some accepted ∧
      cheapestRoute source accepted stepCost = none := by
  have each : ∀ entry ∈ consumers.zipIdx,
      (∃ route, routeTo stepCost source entry = .ok route ∧ True) ∨
        ∃ fault, routeTo stepCost source entry = .error fault ∧
          fault = entry.2 ∧ cheapestRoute source entry.1 stepCost = none := by
    intro entry _
    rw [routeTo]
    cases cheapestRoute source entry.1 stepCost with
    | none => exact Or.inr ⟨entry.2, rfl, rfl, rfl⟩
    | some route => exact Or.inl ⟨route, rfl, trivial⟩
  rcases mapM_cases each with ⟨routes, success, -⟩ | ⟨entry, listed, fault, ended, rfl, none⟩
  · cases failed.symm.trans success
  · obtain rfl := Except.error.inj (failed.symm.trans ended)
    exact ⟨entry.1, List.mem_zipIdx_iff_getElem?.mp listed, none⟩

/-! ## Trying the forms of a producer -/

def offer? (stepCost : Conversion → α) (consumers : List (List Form)) (form : Form) :
    Option (GroupRoutes α) :=
  match routesFrom stepCost form consumers with
  | .ok routes => some ⟨form, routes, Quantity.sum (routes.map (·.cost))⟩
  | .error _ => none

theorem offer?_some {consumers : List (List Form)} {form : Form} {group : GroupRoutes α}
    (offered : offer? stepCost consumers form = some group) :
    group.form = form ∧ routesFrom stepCost form consumers = .ok group.routes ∧
      group.cost = Quantity.sum (group.routes.map (·.cost)) := by
  rw [offer?] at offered
  split at offered
  · next success =>
    cases offered
    exact ⟨rfl, success, rfl⟩
  · cases offered

theorem tryForms_ok_iff {consumers : List (List Form)} {forms : List Form}
    {best : Option (GroupRoutes α)} {missed : Nat} {group : GroupRoutes α} :
    tryForms stepCost consumers forms best missed = .ok group ↔
      bestBy GroupRoutes.better
        (best.toList ++ forms.filterMap (offer? stepCost consumers)) = some group := by
  induction forms generalizing best missed with
  | nil => cases best <;> simp [tryForms, bestBy]
  | cons form rest ih =>
    rw [tryForms, List.filterMap_cons, offer?]
    cases routesFrom stepCost form consumers with
    | error place => exact ih
    | ok routes => cases best <;> exact ih

/-- The consumer that is named where no form reaches all is one that the last form misses. -/
theorem tryForms_error {consumers : List (List Form)} {forms : List Form}
    {best : Option (GroupRoutes α)} {missed place : Nat}
    (failed : tryForms stepCost consumers forms best missed = .error place) :
    (forms = [] ∧ place = missed) ∨
      ∃ form ∈ forms, routesFrom stepCost form consumers = .error place := by
  induction forms generalizing best missed with
  | nil =>
    cases best with
    | none => exact Or.inl ⟨rfl, (Except.error.inj failed).symm⟩
    | some best => cases failed
  | cons form rest ih =>
    rw [tryForms] at failed
    right
    split at failed
    · next other reached =>
      rcases ih failed with ⟨rfl, rfl⟩ | ⟨later, listed, misses⟩
      · exact ⟨form, List.mem_cons_self, reached⟩
      · exact ⟨later, List.mem_cons_of_mem _ listed, misses⟩
    · have held : ∃ group, tryForms stepCost consumers rest (some group) missed = .error place := by
        dsimp only at failed
        split at failed
        · exact ⟨_, failed⟩
        · exact ⟨_, failed⟩
      obtain ⟨group, failed⟩ := held
      rcases ih failed with ⟨rfl, rfl⟩ | ⟨later, listed, misses⟩
      · cases failed
      · exact ⟨later, List.mem_cons_of_mem _ listed, misses⟩

/-- A form of the producer with a cheapest route to each consumer. -/
structure GroupRoutes.Resolves (produced : List Form) (consumers : List (List Form))
    (stepCost : Conversion → α) (group : GroupRoutes α) : Prop where
  form : group.form ∈ produced
  routes : routesFrom stepCost group.form consumers = .ok group.routes
  cost : group.cost = Quantity.sum (group.routes.map (·.cost))

theorem resolveGroup_ok {produced : List Form} {consumers : List (List Form)}
    {group : GroupRoutes α} (success : resolveGroup produced consumers stepCost = .ok group) :
    group.Resolves produced consumers stepCost := by
  obtain ⟨form, listed, offered⟩ := List.mem_filterMap.mp (bestBy_mem (tryForms_ok_iff.mp success))
  obtain ⟨rfl, routes, cost⟩ := offer?_some offered
  exact ⟨listed, routes, cost⟩

/-- An output in some form is handed over to consumers that each accept some form. -/
theorem resolveGroup_isOk {produced : List Form} {consumers : List (List Form)}
    (offered : produced ≠ []) (accepting : ∀ accepted ∈ consumers, accepted ≠ []) :
    ∃ group, resolveGroup produced consumers stepCost = .ok group := by
  obtain ⟨form, listed⟩ := List.exists_mem_of_ne_nil _ offered
  obtain ⟨routes, reached⟩ : ∃ routes, routesFrom stepCost form consumers = .ok routes :=
    routesFrom_isOk form accepting
  have allowed : produced.filterMap (offer? stepCost consumers) ≠ [] :=
    List.ne_nil_of_mem (List.mem_filterMap.mpr ⟨form, listed, by rw [offer?, reached]⟩)
  obtain ⟨group, found⟩ := Option.isSome_iff_exists.mp (bestBy_isSome.mpr allowed)
  exact ⟨group, tryForms_ok_iff.mpr found⟩

end CrossPlan
