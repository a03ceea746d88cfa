import CrossPlan.Proofs.Execution.Graph
import CrossPlan.Proofs.Selection.Tasks
import CrossPlan.Proofs.Selection.Wiring

/-!
# The junctions of a selection

Each link of a chosen replacement and each output that is handed over becomes a junction.  Together
the junctions join the slots that links and edges join, each slot once.
-/

set_option autoImplicit false

namespace CrossPlan

open Sequence

namespace Problem

variable {α : Type} {problem : Problem α}

/-- One output of a chosen candidate and the inputs that read it. -/
structure Wire where
  producer : CandidateSlot
  consumers : List CandidateSlot

def Offers (problem : Problem α) (producer : CandidateSlot) (form : Form) : Prop :=
  ∃ operator, problem.operatorAt? producer.candidate producer.slot.operator = some operator ∧
    form ∈ operator.outputForms producer.slot.slot

def Reaches (problem : Problem α) (form : Form) (consumer : CandidateSlot)
    (steps : List Conversion) : Prop :=
  ∃ operator arrived,
    problem.operatorAt? consumer.candidate consumer.slot.operator = some operator ∧
    Conversion.chains steps form arrived = true ∧
    arrived ∈ operator.inputForms consumer.slot.slot

structure Realizes (problem : Problem α) (numbers : TaskNumbers) (wire : Wire)
    (junction : Junction α) : Prop where
  producer : junction.producer = slotAt numbers wire.producer
  offers : problem.Offers wire.producer junction.form
  targets : List.Forall₂ (fun consumer target => target.consumer = slotAt numbers consumer ∧
    problem.Reaches junction.form consumer target.conversions) wire.consumers junction.targets

/-! ## Links -/

def linkWire (candidate : Nat) (link : Edge) : Wire :=
  ⟨⟨candidate, link.source⟩, [⟨candidate, link.target⟩]⟩

def linkWires (problem : Problem α) (candidate : Nat) : List Wire :=
  match problem.candidates[candidate]? with
  | some found => found.replacement.links.map (linkWire candidate)
  | none => []

/-- A link leads from an operator that hands rows on in some form to one that takes some form. -/
def Carried (replacement : Replacement α) (link : Edge) : Prop :=
  ∀ source target, replacement.operators[link.source.operator]? = some source →
    replacement.operators[link.target.operator]? = some target →
    source.outputForms link.source.slot ≠ [] ∧ target.inputForms link.target.slot ≠ []

def LinksCarried (problem : Problem α) (selection : List Nat) : Prop :=
  ∀ candidate ∈ selection, ∀ found, problem.candidates[candidate]? = some found →
    ∀ link ∈ found.replacement.links, Carried found.replacement link

section Links

variable [Quantity α] {chosen : List Nat} {tasks : List (Task α)} {numbers : TaskNumbers}

theorem linkJunction_cases (assembled : problem.Assembled chosen tasks numbers) {candidate : Nat}
    (listed : candidate ∈ chosen) {found : Candidate α}
    (known : problem.candidates[candidate]? = some found)
    (used : found.replacement.SlotsUsed) {link : Edge}
    (present : link ∈ found.replacement.links) :
    (∃ junction, linkJunction numbers candidate found.replacement link = .ok junction ∧
      Carried found.replacement link ∧
      problem.Realizes numbers (linkWire candidate link) junction) ∨
    ∃ error, linkJunction numbers candidate found.replacement link = .error error ∧
      ¬ Carried found.replacement link ∧
      ∃ producer consumer, error = .noCompatibleChannel producer consumer := by
  obtain ⟨source, output, -⟩ := used.readKnown link.source
    (List.mem_append_left _ (List.mem_map_of_mem present))
  obtain ⟨target, input, -⟩ := used.fedKnown link.target
    (List.mem_append_left _ (List.mem_map_of_mem present))
  have carried : Carried found.replacement link ↔
      source.outputForms link.source.slot ≠ [] ∧ target.inputForms link.target.slot ≠ [] := by
    unfold Carried
    rw [output, input]
    exact ⟨fun all => all source target rfl rfl,
      fun both _ _ same same' => Option.some.inj same ▸ Option.some.inj same' ▸ both⟩
  have at_ : ∀ place, problem.operatorAt? candidate place =
      found.replacement.operators[place]? := by
    intro place
    rw [operatorAt?, known, Option.bind_some]
  simp only [linkJunction, output, input, carried]
  cases outcome : resolveGroup (source.outputForms link.source.slot)
      [target.inputForms link.target.slot] (fun _ => (Quantity.one : α)) with
  | error place =>
    refine Or.inr ⟨_, rfl, ?_, _, _, rfl⟩
    rintro ⟨offered, accepting⟩
    obtain ⟨group, success⟩ : ∃ group, resolveGroup (source.outputForms link.source.slot)
        [target.inputForms link.target.slot] (fun _ => (Quantity.one : α)) = .ok group :=
      resolveGroup_isOk offered (by simpa using accepting)
    rw [success] at outcome
    cases outcome
  | ok group =>
    have resolves := resolveGroup_ok outcome
    obtain ⟨route, rest, reached, nothing, same⟩ :=
      List.forall₂_cons_left_iff.mp (routesFrom_ok resolves.routes)
    rw [List.forall₂_nil_left_iff] at nothing
    subst nothing
    obtain ⟨chained, accepted, -⟩ := cheapestRoute_some reached
    have start : taskSlot numbers ⟨candidate, link.source⟩ = .ok _ := taskSlot_ok assembled listed
    have ends : taskSlot numbers ⟨candidate, link.target⟩ = .ok _ := taskSlot_ok assembled listed
    simp only [start, ends, same]
    refine Or.inl ⟨_, rfl, ⟨List.ne_nil_of_mem resolves.form, List.ne_nil_of_mem accepted⟩,
      rfl, ⟨source, (at_ _).trans output, resolves.form⟩, ?_⟩
    exact .cons ⟨rfl, target, _, (at_ _).trans input, chained, accepted⟩ .nil

/-- The links of all chosen candidates become junctions exactly where they can all carry rows. -/
theorem linkJunctions_cases (assembled : problem.Assembled chosen tasks numbers)
    (used : ∀ candidate ∈ chosen, ∀ found, problem.candidates[candidate]? = some found →
      found.replacement.SlotsUsed)
    (known : ∀ candidate ∈ chosen, candidate < problem.candidates.length) :
    (∃ links, chosen.mapM (problem.linkJunctions numbers) = .ok links ∧
      problem.LinksCarried chosen ∧
      List.Forall₂ (problem.Realizes numbers) (chosen.flatMap problem.linkWires) links.flatten) ∨
    ∃ error, chosen.mapM (problem.linkJunctions numbers) = .error error ∧
      ¬ problem.LinksCarried chosen ∧
      ∃ producer consumer, error = .noCompatibleChannel producer consumer := by
  have each : ∀ candidate ∈ chosen,
      (∃ junctions, problem.linkJunctions numbers candidate = .ok junctions ∧
        (∀ found, problem.candidates[candidate]? = some found →
          ∀ link ∈ found.replacement.links, Carried found.replacement link) ∧
        List.Forall₂ (problem.Realizes numbers) (problem.linkWires candidate) junctions) ∨
      ∃ error, problem.linkJunctions numbers candidate = .error error ∧
        (∃ found, problem.candidates[candidate]? = some found ∧
          ∃ link ∈ found.replacement.links, ¬ Carried found.replacement link) ∧
        ∃ producer consumer, error = .noCompatibleChannel producer consumer := by
    intro candidate listed
    have here := List.getElem?_eq_getElem (known candidate listed)
    have slots := used candidate listed _ here
    simp only [linkJunctions, linkWires, here]
    rcases mapM_cases (fun link present => linkJunction_cases assembled listed here slots present)
      with ⟨junctions, built, all⟩ | ⟨link, present, error, failed, wrong, named⟩
    · refine Or.inl ⟨junctions, built, ?_, ?_⟩
      · intro found same link present
        obtain rfl := Option.some.inj same
        obtain ⟨_, -, carried, -⟩ := mem_left all present
        exact carried
      · exact List.forall₂_map_left_iff.mpr (all.imp fun _ _ both => both.2)
    · exact Or.inr ⟨error, failed, ⟨_, rfl, link, present, wrong⟩, named⟩
  rcases mapM_cases each with ⟨links, built, all⟩ | ⟨candidate, listed, error, failed, wrong, named⟩
  · refine Or.inl ⟨links, built, ?_, ?_⟩
    · intro candidate listed
      obtain ⟨_, -, carried, -⟩ := mem_left all listed
      exact carried
    · have paired : List.Forall₂ (List.Forall₂ (problem.Realizes numbers))
          (chosen.map problem.linkWires) links :=
        List.forall₂_map_left_iff.mpr (all.imp fun _ _ both => both.2)
      exact List.rel_flatten paired
  · obtain ⟨found, here, link, present, missing⟩ := wrong
    exact Or.inr ⟨error, failed, fun carried => missing (carried candidate listed found here link
      present), named⟩

end Links

/-! ## Outputs that are handed over -/

def outcomeWires (outcome : Option (GroupOutcome α)) : List Wire :=
  match outcome with
  | some outcome => [⟨outcome.producer, outcome.consumers.map (·.1)⟩]
  | none => []

/-- How the outcome of a group stands to the plan: either one candidate covers all its operators, or
the output reaches those that read it outside. -/
inductive Handed (problem : Problem α) (selection : List Nat) (group : OutputGroup) :
    Option (GroupOutcome α) → Prop where
  | inside (candidate : Nat) (chosen : candidate ∈ selection)
      (producer : problem.Stands candidate group.producer.operator)
      (consumers : ∀ input ∈ group.consumers, problem.Stands candidate input.operator) :
      Handed problem selection group none
  | across (outcome : GroupOutcome α) (outside : List SlotRef) (read : outside ≠ [])
      (among : outside.Sublist group.consumers)
      (chosen : outcome.producer.candidate ∈ selection)
      (gives : problem.Gives outcome.producer group.producer)
      (takes : List.Forall₂ (fun input consumer =>
        consumer.candidate ∈ selection ∧ problem.Takes consumer input) outside
        (outcome.consumers.map (·.1)))
      (others : ∀ input ∈ group.consumers,
        problem.Stands outcome.producer.candidate input.operator ∨ input ∈ outside)
      (offers : problem.Offers outcome.producer outcome.routes.form)
      (reaches : List.Forall₂ (fun consumer route =>
        problem.Reaches outcome.routes.form consumer route.steps) (outcome.consumers.map (·.1))
        outcome.routes.routes) :
      Handed problem selection group (some outcome)

variable [Quantity α] {full selection : List Nat}

theorem handOver_of_outcomes (costs : problem.conversionCosts.length = problem.groups.length)
    {assigned : Assignment} {outcomes : List (Option (GroupOutcome α))}
    (all : (List.range problem.groups.length).mapM (problem.outcome assigned) = .ok outcomes) :
    List.Forall₂ (fun group outcome => ∃ costs, problem.handOver assigned group costs = .ok outcome)
      problem.groups outcomes := by
  have paired := mapM_ok_iff.mp all
  have length : problem.groups.length = outcomes.length := by
    rw [← paired.length_eq, List.length_range]
  refine List.forall₂_iff_get.mpr ⟨length, fun place within within' => ?_⟩
  have success := paired.get (i := place) (by rwa [List.length_range]) within'
  have known : place < problem.conversionCosts.length := by rwa [costs]
  simp only [List.get_eq_getElem, List.getElem_range, outcome, List.getElem?_eq_getElem within,
    List.getElem?_eq_getElem known] at success
  exact ⟨_, success⟩

namespace Cover

theorem reaches_of_routes {outside : List (SlotRef × Nat)}
    {targets : List ((CandidateSlot × Bool) × List Form)} {routes : List (Route α)} {form : Form}
    {stepCost : Conversion → α}
    (inputs : List.Forall₂ (fun entry target => ∃ operator,
      problem.operatorAt? target.1.1.candidate target.1.1.slot.operator = some operator ∧
        target.2 = acceptedOn (operator.inputForms target.1.1.slot.slot)
          (problem.isBroadcast entry.1)) outside targets)
    (found : routesFrom stepCost form (targets.map (·.2)) = .ok routes) :
    List.Forall₂ (fun consumer route => problem.Reaches form consumer route.steps)
      ((targets.map (·.1)).map (·.1)) routes := by
  rw [List.map_map, List.forall₂_map_left_iff]
  have reached := List.forall₂_map_left_iff.mp (routesFrom_ok found)
  refine List.forall₂_iff_get.mpr ⟨reached.length_eq, fun place within within' => ?_⟩
  obtain ⟨entry, -, operator, here, accepted⟩ := mem_right inputs
    (List.get_mem targets ⟨place, within⟩)
  obtain ⟨chained, arrived, -⟩ := cheapestRoute_some (reached.get within within')
  refine ⟨operator, _, here, chained, ?_⟩
  rw [accepted, acceptedOn] at arrived
  split at arrived
  · exact (List.mem_filter.mp arrived).1
  · exact arrived

theorem handed (cover : problem.Cover full selection) {group : OutputGroup} {costs : List α}
    {found : Option (GroupOutcome α)}
    (success : problem.handOver (full.map some) group costs = .ok found) :
    problem.Handed selection group found := by
  obtain ⟨producer, outside, chosen, consumers, outcome⟩ := handOver_ok success
  obtain ⟨chosen, stands⟩ := cover.chosen?_iff.mp chosen
  obtain ⟨among, entries, all⟩ := outsideConsumers_ok consumers
  rcases outcome with ⟨rfl, rfl⟩ | ⟨outcome, source, targets, rfl, handed⟩
  · refine .inside producer chosen stands fun input listed => ?_
    obtain ⟨candidate, held, apart⟩ := all input listed
    by_cases same : candidate = producer
    · rw [← same]
      exact (cover.chosen?_iff.mp held).2
    · cases apart same
  · obtain ⟨candidate, known, covered⟩ := stands
    have joined := cover.joined candidate (List.mem_of_getElem? known)
    obtain ⟨same, ⟨place, here, there⟩, operator⟩ :=
      (outputSlot?_iff known joined.distinctOutputs).mp handed.output
    have inputs : List.Forall₂ (fun entry target => (target.1.1.candidate ∈ selection ∧
        problem.Takes target.1.1 entry.1) ∧ ∃ operator,
        problem.operatorAt? target.1.1.candidate target.1.1.slot.operator = some operator ∧
          target.2 = acceptedOn (operator.inputForms target.1.1.slot.slot)
            (problem.isBroadcast entry.1)) outside targets := by
      refine List.forall₂_iff_get.mpr ⟨handed.inputs.length_eq, fun place within within' => ?_⟩
      obtain ⟨target, input, -, accepted⟩ := handed.inputs.get within within'
      obtain ⟨held, -⟩ := entries _ (List.get_mem outside ⟨place, within⟩)
      obtain ⟨listed, reader, known, -⟩ := cover.chosen?_iff.mp held
      have joined := cover.joined reader (List.mem_of_getElem? known)
      obtain ⟨same, ⟨inner, here, there⟩, found⟩ :=
        (inputSlot?_iff known joined.distinctInputs).mp input
      rw [← same] at listed known
      refine ⟨⟨listed, reader, known, inner, here, there⟩, target, ?_, accepted⟩
      rw [operatorAt?, known, Option.bind_some]
      exact found
    obtain ⟨stepCost, resolved⟩ := handed.routes
    have resolves := resolveGroup_ok resolved
    rw [← same] at chosen known
    refine .across outcome (outside.map (·.1)) (by simpa using handed.read) among chosen
      ⟨candidate, known, place, here, there⟩ ?_ ?_ ⟨source, ?_, resolves.form⟩ ?_
    · rw [handed.consumers, List.map_map, List.forall₂_map_left_iff, List.forall₂_map_right_iff]
      exact inputs.imp fun _ _ both => both.1
    · intro input listed
      obtain ⟨reader, held, apart⟩ := all input listed
      by_cases same' : reader = producer
      · rw [same, ← same']
        exact Or.inl (cover.chosen?_iff.mp held).2
      · exact Or.inr (List.mem_map.mpr ⟨_, apart same', rfl⟩)
    · rw [operatorAt?, known, Option.bind_some]
      exact operator
    · rw [handed.consumers]
      exact reaches_of_routes (inputs.imp fun _ _ both => both.2)
        resolves.routes

theorem handed_of_scoreOf (cover : problem.Cover full selection) {score : Score α}
    (scored : problem.scoreOf full = .ok score) :
    ∃ outcomes, (List.range problem.groups.length).mapM (problem.outcome (full.map some)) =
        .ok outcomes ∧
      List.Forall₂ (problem.Handed selection) problem.groups outcomes := by
  obtain ⟨outcomes, all, -⟩ := bind_ok_iff.mp scored
  exact ⟨outcomes, all, (handOver_of_outcomes cover.prepared.costs all).imp
    fun _ _ ⟨_, success⟩ => cover.handed success⟩

end Cover

end Problem

end CrossPlan
