import CrossPlan.Proofs.Rule.Builtin
import CrossPlan.Proofs.Selection.Exhaustive
import CrossPlan.Proofs.Selection.Wires

/-!
# When a solution can be built

The task graph of a solution joins every slot once.  What can keep it from being built is a link
that can carry no rows, or data that leaves a candidate and comes back to an operator before it.
-/

set_option autoImplicit false

namespace CrossPlan

open Sequence

namespace Problem

variable {α : Type} {problem : Problem α}

/-! ## The task graph -/

section Graph

variable {chosen selection : List Nat} {tasks : List (Task α)} {numbers : TaskNumbers}
  {wires : List Wire} {junctions : List (Junction α)}

theorem carried_eq (realized : List.Forall₂ (problem.Realizes numbers) wires junctions) :
    TaskGraph.carried junctions = (wires.map (·.producer)).map (slotAt numbers) := by
  induction realized with
  | nil => rfl
  | cons now _ ih =>
    rw [TaskGraph.carried] at ih ⊢
    rw [List.map_cons, List.map_cons, List.map_cons, ih, now.producer]

theorem consumers_eq {wire : Wire} {junction : Junction α}
    (realized : problem.Realizes numbers wire junction) :
    junction.targets.map (·.consumer) = wire.consumers.map (slotAt numbers) := by
  have paired : List.Forall₂ Eq (junction.targets.map (·.consumer))
      (wire.consumers.map (slotAt numbers)) := by
    rw [List.forall₂_map_left_iff, List.forall₂_map_right_iff]
    exact List.Forall₂.flip (realized.targets.imp fun _ _ both => both.1)
  exact List.forall₂_eq_eq_eq ▸ paired

theorem fed_eq (realized : List.Forall₂ (problem.Realizes numbers) wires junctions) :
    TaskGraph.fed junctions = (wires.flatMap (·.consumers)).map (slotAt numbers) := by
  induction realized with
  | nil => rfl
  | cons now _ ih =>
    rw [TaskGraph.fed] at ih ⊢
    rw [List.flatMap_cons, List.flatMap_cons, List.map_append, ih, consumers_eq now]

theorem slotAt_inj (assembled : problem.Assembled chosen tasks numbers)
    {first second : CandidateSlot} (listed : first.candidate ∈ chosen)
    (listed' : second.candidate ∈ chosen)
    (known : (problem.operatorAt? first.candidate first.slot.operator).isSome = true)
    (known' : (problem.operatorAt? second.candidate second.slot.operator).isSome = true)
    (same : slotAt numbers first = slotAt numbers second) : first = second := by
  obtain ⟨candidate, operator, slot⟩ := first
  obtain ⟨candidate', operator', slot'⟩ := second
  simp only [slotAt, TaskSlot.mk.injEq] at same
  obtain ⟨rfl, rfl⟩ := assembled.apart _ listed _ listed' _ _ known known' same.1
  rw [same.2]

theorem carries_of_realizes (assembled : problem.Assembled chosen tasks numbers) {wire : Wire}
    {junction : Junction α} (realizes : problem.Realizes numbers wire junction)
    (source : wire.producer.candidate ∈ chosen)
    (targets : ∀ input ∈ wire.consumers, input.candidate ∈ chosen) (read : wire.consumers ≠ []) :
    TaskGraph.Carries tasks junction := by
  obtain ⟨operator, found, offered⟩ := realizes.offers
  obtain ⟨task, here, rfl⟩ := assembled.task _ source _ _ found
  refine ⟨⟨task, ?_, ?_⟩, ?_, fun target listed => ?_⟩
  · rw [realizes.producer]
    exact here
  · rw [realizes.producer]
    exact offered
  · intro none
    have empty := realizes.targets
    rw [none, List.forall₂_nil_right_iff] at empty
    exact read empty
  · obtain ⟨consumer, member, same, operator, arrived, found, chained, taken⟩ :=
      mem_right realizes.targets listed
    obtain ⟨task, here, rfl⟩ := assembled.task _ (targets consumer member) _ _ found
    refine ⟨task, arrived, ?_, TaskGraph.follow?_of_chains chained, ?_⟩
    · rw [same]
      exact here
    · rw [same]
      exact taken

end Graph

/-- The tasks and junctions of a selection, and what they stand for. -/
structure Outline [Quantity α] (problem : Problem α) (full selection chosen : List Nat)
    (tasks : List (Task α)) (numbers : TaskNumbers) (wires : List Wire)
    (junctions : List (Junction α)) : Prop where
  cover : problem.Cover full selection
  listed : ∀ candidate, candidate ∈ chosen ↔ candidate ∈ selection
  assembled : problem.Assembled chosen tasks numbers
  spans : problem.Spans selection wires
  realized : List.Forall₂ (problem.Realizes numbers) wires junctions

/-- The tasks and junctions of a selection that joins each slot once. -/
structure Laid [Quantity α] (problem : Problem α) (full selection chosen : List Nat)
    (tasks : List (Task α)) (numbers : TaskNumbers) (wires : List Wire)
    (junctions : List (Junction α)) : Prop
    extends Outline problem full selection chosen tasks numbers wires junctions where
  connects : problem.Connects selection wires

namespace Outline

variable [Quantity α] {full selection chosen : List Nat} {tasks : List (Task α)}
  {numbers : TaskNumbers} {wires : List Wire} {junctions : List (Junction α)}
  (outline : problem.Outline full selection chosen tasks numbers wires junctions)

include outline

theorem operator_of_output {output input : CandidateSlot}
    (wired : problem.Wired selection output input) :
    output.candidate ∈ chosen ∧ ∃ operator,
      problem.operatorAt? output.candidate output.slot.operator = some operator ∧
        output.slot.slot < operator.outputs := by
  obtain ⟨⟨among, found, known, operator, here, within⟩, -⟩ := outline.cover.wired_known wired
  exact ⟨(outline.listed _).mpr among, operator, by rw [operatorAt?, known]; exact here, within⟩

theorem operator_of_input {output input : CandidateSlot}
    (wired : problem.Wired selection output input) :
    input.candidate ∈ chosen ∧ ∃ operator,
      problem.operatorAt? input.candidate input.slot.operator = some operator ∧
        input.slot.slot < operator.inputs := by
  obtain ⟨-, among, found, known, operator, here, within⟩ := outline.cover.wired_known wired
  exact ⟨(outline.listed _).mpr among, operator, by rw [operatorAt?, known]; exact here, within⟩

theorem wired_of_mem {wire : Wire} (present : wire ∈ wires) {input : CandidateSlot}
    (member : input ∈ wire.consumers) :
    problem.Wired selection wire.producer input :=
  (outline.spans.wired _ _).mpr ⟨wire, present, rfl, member⟩

theorem exists_wired {wire : Wire} (present : wire ∈ wires) :
    ∃ input ∈ wire.consumers, problem.Wired selection wire.producer input := by
  obtain ⟨input, member⟩ := List.exists_mem_of_ne_nil _ (outline.spans.read wire present)
  exact ⟨input, member, outline.wired_of_mem present member⟩

theorem carries : ∀ junction ∈ junctions, TaskGraph.Carries tasks junction := by
  intro junction present
  obtain ⟨wire, here, realizes⟩ := mem_right outline.realized present
  obtain ⟨input, -, wired⟩ := outline.exists_wired here
  exact carries_of_realizes outline.assembled realizes (outline.operator_of_output wired).1
    (fun input member => (outline.operator_of_input (outline.wired_of_mem here member)).1)
    (outline.spans.read wire here)

theorem nodup_fed : (TaskGraph.fed junctions).Nodup := by
  rw [fed_eq outline.realized]
  refine outline.spans.consumers.map_on fun a first b second same => ?_
  obtain ⟨wire, present, member⟩ := List.mem_flatMap.mp first
  obtain ⟨wire', present', member'⟩ := List.mem_flatMap.mp second
  obtain ⟨listed, _, known, -⟩ := outline.operator_of_input (outline.wired_of_mem present member)
  obtain ⟨listed', _, known', -⟩ :=
    outline.operator_of_input (outline.wired_of_mem present' member')
  exact slotAt_inj outline.assembled listed listed' (Option.isSome_of_eq_some known)
    (Option.isSome_of_eq_some known') same

theorem count_fed {task : Task α} (present : task ∈ tasks) {slot : Nat}
    (within : slot < task.operator.inputs) :
    (TaskGraph.fed junctions).count ⟨task.id, slot⟩ = 1 := by
  obtain ⟨number, here⟩ := List.mem_iff_getElem?.mp present
  obtain ⟨candidate, listed, found, place, known, operator, -, rfl⟩ :=
    outline.assembled.site number task here
  refine List.count_eq_one_of_mem outline.nodup_fed ?_
  rw [fed_eq outline.realized, outline.assembled.id_eq here]
  obtain ⟨output, wired⟩ : ∃ output, problem.Wired selection output ⟨candidate, ⟨place, slot⟩⟩ :=
    outline.cover.exists_wired_into ((outline.listed candidate).mp listed) known
      ⟨task.operator, operator, within⟩
  obtain ⟨wire, present, -, member⟩ := (outline.spans.wired _ _).mp wired
  exact List.mem_map.mpr ⟨_, List.mem_flatMap.mpr ⟨wire, present, member⟩, rfl⟩

/-- A task comes directly before another one where its operator feeds the other's. -/
theorem precedes_iff {earlier later : Nat} :
    Precedence.Precedes (TaskGraph.precedence junctions) earlier later ↔
      ∃ site site', problem.Feeds selection site site' ∧ earlier = taskAt numbers site.1 site.2 ∧
        later = taskAt numbers site'.1 site'.2 := by
  rw [Precedence.Precedes, TaskGraph.mem_precedence]
  constructor
  · rintro ⟨junction, present, rfl, target, among, rfl⟩
    obtain ⟨wire, here, realizes⟩ := mem_right outline.realized present
    obtain ⟨input, member, same, -⟩ := mem_right realizes.targets among
    refine ⟨_, _, ⟨_, _, outline.wired_of_mem here member, rfl, rfl⟩, ?_, ?_⟩
    · rw [realizes.producer]
      rfl
    · rw [same]
      rfl
  · rintro ⟨_, _, ⟨output, input, wired, rfl, rfl⟩, rfl, rfl⟩
    obtain ⟨wire, here, rfl, member⟩ := (outline.spans.wired _ _).mp wired
    obtain ⟨junction, present, realizes⟩ := mem_left outline.realized here
    obtain ⟨target, among, same, -⟩ := mem_left realizes.targets member
    refine ⟨junction, present, ?_, target, among, ?_⟩
    · rw [realizes.producer]
      rfl
    · rw [same]
      rfl

theorem closed : TaskGraph.Closed tasks junctions := by
  refine ⟨outline.assembled.ids, fun pair present => ?_⟩
  obtain ⟨_, _, ⟨output, input, wired, rfl, rfl⟩, first, second⟩ := outline.precedes_iff.mp present
  obtain ⟨listed, _, known, -⟩ := outline.operator_of_output wired
  obtain ⟨listed', _, known', -⟩ := outline.operator_of_input wired
  rw [first, second]
  exact ⟨outline.assembled.taskAt_lt listed (Option.isSome_of_eq_some known),
    outline.assembled.taskAt_lt listed' (Option.isSome_of_eq_some known')⟩

def Site (problem : Problem α) (chosen : List Nat) (site : Nat × Nat) : Prop :=
  site.1 ∈ chosen ∧ (problem.operatorAt? site.1 site.2).isSome = true

theorem sites_of_feeds {earlier later : Nat × Nat} (feeds : problem.Feeds selection earlier later) :
    Site problem chosen earlier ∧ Site problem chosen later := by
  obtain ⟨output, input, wired, rfl, rfl⟩ := feeds
  obtain ⟨listed, _, known, -⟩ := outline.operator_of_output wired
  obtain ⟨listed', _, known', -⟩ := outline.operator_of_input wired
  exact ⟨⟨listed, Option.isSome_of_eq_some known⟩, listed', Option.isSome_of_eq_some known'⟩

theorem sites_of_path {earlier later : Nat × Nat}
    (path : Relation.TransGen (problem.Feeds selection) earlier later) :
    Site problem chosen earlier ∧ Site problem chosen later := by
  induction path with
  | single step => exact outline.sites_of_feeds step
  | tail _ step ih => exact ⟨ih.1, (outline.sites_of_feeds step).2⟩

theorem site_unique {first second : Nat × Nat} (site : Site problem chosen first)
    (site' : Site problem chosen second)
    (same : taskAt numbers first.1 first.2 = taskAt numbers second.1 second.2) :
    first = second :=
  Prod.ext_iff.mpr
    (outline.assembled.apart _ site.1 _ site'.1 _ _ site.2 site'.2 same)

theorem path_of_precedes {earlier later : Nat}
    (path : Relation.TransGen (Precedence.Precedes (TaskGraph.precedence junctions)) earlier
      later) :
    ∃ site site', Relation.TransGen (problem.Feeds selection) site site' ∧
      earlier = taskAt numbers site.1 site.2 ∧ later = taskAt numbers site'.1 site'.2 := by
  induction path with
  | single step =>
    obtain ⟨site, site', feeds, first, second⟩ := outline.precedes_iff.mp step
    exact ⟨site, site', .single feeds, first, second⟩
  | tail _ step ih =>
    obtain ⟨site, middle, before, first, here⟩ := ih
    obtain ⟨middle', site', feeds, here', second⟩ := outline.precedes_iff.mp step
    have same := outline.site_unique (outline.sites_of_path before).2
      (outline.sites_of_feeds feeds).1 (here.symm.trans here')
    exact ⟨site, site', before.tail (same ▸ feeds), first, second⟩

theorem acyclic_iff :
    Precedence.Acyclic (TaskGraph.precedence junctions) ↔
      ∀ site, ¬ Relation.TransGen (problem.Feeds selection) site site := by
  constructor
  · intro acyclic site path
    refine acyclic (taskAt numbers site.1 site.2) ?_
    have step : ∀ a b, problem.Feeds selection a b →
        Precedence.Precedes (TaskGraph.precedence junctions) (taskAt numbers a.1 a.2)
          (taskAt numbers b.1 b.2) :=
      fun a b feeds => outline.precedes_iff.mpr ⟨a, b, feeds, rfl, rfl⟩
    exact Relation.TransGen.lift (fun site : Nat × Nat => taskAt numbers site.1 site.2) step _ _
      path
  · intro acyclic task cycle
    obtain ⟨site, site', path, first, second⟩ := outline.path_of_precedes cycle
    have ends := outline.sites_of_path path
    obtain rfl := outline.site_unique ends.1 ends.2 (first.symm.trans second)
    exact acyclic site path

theorem nodup_carried (producers : (wires.map (·.producer)).Nodup) :
    (TaskGraph.carried junctions).Nodup := by
  rw [carried_eq outline.realized]
  refine producers.map_on fun a first b second same => ?_
  obtain ⟨wire, present, rfl⟩ := List.mem_map.mp first
  obtain ⟨wire', present', rfl⟩ := List.mem_map.mp second
  obtain ⟨_, -, wired⟩ := outline.exists_wired present
  obtain ⟨_, -, wired'⟩ := outline.exists_wired present'
  obtain ⟨listed, _, known, -⟩ := outline.operator_of_output wired
  obtain ⟨listed', _, known', -⟩ := outline.operator_of_output wired'
  exact slotAt_inj outline.assembled listed listed' (Option.isSome_of_eq_some known)
    (Option.isSome_of_eq_some known') same

theorem joined (producers : (wires.map (·.producer)).Nodup) :
    ∀ task ∈ tasks, TaskGraph.Joined junctions task := by
  intro task present
  refine ⟨fun slot => outline.count_fed present, fun slot within => ?_⟩
  obtain ⟨number, here⟩ := List.mem_iff_getElem?.mp present
  obtain ⟨candidate, listed, found, place, known, operator, -, rfl⟩ :=
    outline.assembled.site number task here
  refine List.count_eq_one_of_mem (outline.nodup_carried producers) ?_
  rw [carried_eq outline.realized, outline.assembled.id_eq here]
  obtain ⟨input, wired⟩ : ∃ input, problem.Wired selection ⟨candidate, ⟨place, slot⟩⟩ input :=
    outline.cover.exists_wired_from ((outline.listed candidate).mp listed) known
      ⟨task.operator, operator, within⟩
  obtain ⟨wire, present, same, -⟩ := (outline.spans.wired _ _).mp wired
  exact List.mem_map.mpr ⟨_, List.mem_map.mpr ⟨wire, present, same⟩, rfl⟩

/-- The plan of a selection is accepted exactly when no operator feeds itself. -/
theorem create_cases (producers : (wires.map (·.producer)).Nodup) (score : Score α) (epoch : Nat) :
    ((∀ site, ¬ Relation.TransGen (problem.Feeds selection) site site) ∧ ∃ order,
      TaskGraph.order tasks junctions = .ok order ∧
        ExecutionPlan.create tasks junctions score epoch =
          .ok ⟨tasks, junctions, order, score, epoch⟩) ∨
    (¬ (∀ site, ¬ Relation.TransGen (problem.Feeds selection) site site) ∧
      ExecutionPlan.create tasks junctions score epoch =
        .error (.internal "task graph is cyclic")) := by
  have verified := TaskGraph.verify_eq outline.carries (outline.joined producers)
  have sorted := TaskGraph.order_isOk_iff outline.closed
  rw [outline.acyclic_iff] at sorted
  simp only [ExecutionPlan.create, verified, ← sorted]
  cases outcome : TaskGraph.order tasks junctions with
  | ok order => exact Or.inl ⟨⟨order, rfl⟩, order, rfl, rfl⟩
  | error error =>
    refine Or.inr ⟨by simp, ?_⟩
    simp only [TaskGraph.order] at outcome
    split at outcome
    · cases outcome
    · cases outcome
      rfl

end Outline

theorem Laid.create_cases [Quantity α] {full selection chosen : List Nat} {tasks : List (Task α)}
    {numbers : TaskNumbers} {wires : List Wire} {junctions : List (Junction α)}
    (laid : problem.Laid full selection chosen tasks numbers wires junctions) (score : Score α)
    (epoch : Nat) :
    ((∀ site, ¬ Relation.TransGen (problem.Feeds selection) site site) ∧ ∃ order,
      TaskGraph.order tasks junctions = .ok order ∧
        ExecutionPlan.create tasks junctions score epoch =
          .ok ⟨tasks, junctions, order, score, epoch⟩) ∨
    (¬ (∀ site, ¬ Relation.TransGen (problem.Feeds selection) site site) ∧
      ExecutionPlan.create tasks junctions score epoch =
        .error (.internal "task graph is cyclic")) :=
  laid.toOutline.create_cases laid.connects.producers score epoch

/-! ## Building -/

section Groups

variable [Quantity α] {full selection chosen : List Nat} {tasks : List (Task α)}
  {numbers : TaskNumbers}

omit [Quantity α] in
theorem groupJunction_ok (assembled : problem.Assembled chosen tasks numbers)
    (listed : ∀ candidate, candidate ∈ chosen ↔ candidate ∈ selection) {group : OutputGroup}
    {outcome : GroupOutcome α} (handed : problem.Handed selection group (some outcome)) :
    ∃ junction, groupJunction numbers outcome = .ok junction ∧
      problem.Realizes numbers ⟨outcome.producer, outcome.consumers.map (·.1)⟩ junction := by
  cases handed with
  | across _ outside read among found gives takes others offers reaches =>
    let target (entry : (CandidateSlot × Bool) × Route α) : JunctionTarget α :=
      { consumer := slotAt numbers entry.1.1, conversions := entry.2.steps
        crossPlatform := entry.1.2, cost := entry.2.cost }
    have producer := taskSlot_ok assembled ((listed _).mpr found)
    refine ⟨_, bind_ok_iff.mpr ⟨(outcome.consumers.zip outcome.routes.routes).map target,
      mapM_ok_iff.mpr ?_, bind_ok_iff.mpr ⟨_, producer, rfl⟩⟩, rfl, offers, ?_⟩
    · rw [List.forall₂_map_right_iff, List.forall₂_same]
      intro entry member
      have consumer : entry.1.1 ∈ outcome.consumers.map (·.1) :=
        List.mem_map_of_mem (List.of_mem_zip member).1
      obtain ⟨_, -, chosen', -⟩ := mem_right takes consumer
      exact bind_ok_iff.mpr ⟨_, taskSlot_ok assembled ((listed _).mpr chosen'), rfl⟩
    have lengths := reaches.length_eq
    rw [List.length_map] at lengths
    rw [List.forall₂_map_left_iff, List.forall₂_map_right_iff]
    refine List.forall₂_iff_get.mpr ⟨?_, fun place within within' => ?_⟩
    · rw [List.length_zip, lengths, Nat.min_self]
    · have reached := (List.forall₂_map_left_iff.mp reaches).get within (lengths ▸ within)
      simpa [target] using reached

theorem groupJunctions_ok (assembled : problem.Assembled chosen tasks numbers)
    (listed : ∀ candidate, candidate ∈ chosen ↔ candidate ∈ selection)
    {outcomes : List (Option (GroupOutcome α))}
    (found : (List.range problem.groups.length).mapM (problem.outcome (full.map some)) =
      .ok outcomes)
    (handed : List.Forall₂ (problem.Handed selection) problem.groups outcomes) :
    ∃ junctions, problem.groupJunctions numbers full = .ok junctions ∧
      List.Forall₂ (problem.Realizes numbers) (outcomes.flatMap outcomeWires) junctions := by
  have each : List.Forall₂ (fun place outcome => outcome ∈ outcomes ∧
      problem.outcome (full.map some) place = .ok outcome) (List.range problem.groups.length)
      outcomes :=
    List.Forall₂.flip ((List.forall₂_and_left _ _).mpr
      ⟨fun _ here => here, List.Forall₂.flip (mapM_ok_iff.mp found)⟩)
  refine exists_bind_ok (exists_mapM_beside each ?_) fun junctions realized =>
    ⟨_, rfl, List.rel_flatten (List.forall₂_map_left_iff.mpr realized)⟩
  rintro place outcome ⟨here, success⟩
  rw [success]
  cases outcome with
  | none => exact ⟨[], rfl, .nil⟩
  | some outcome =>
    obtain ⟨group, -, one⟩ := mem_right handed here
    obtain ⟨junction, made, realizes⟩ := groupJunction_ok assembled listed one
    exact ⟨[junction], bind_ok_iff.mpr ⟨_, rfl, bind_ok_iff.mpr ⟨junction, made, rfl⟩⟩,
      .cons realizes .nil⟩

/-- Where all links can carry rows, building is a matter of checking what is laid out. -/
theorem build_outline (cover : problem.Cover full selection) {score : Score α}
    (complete : problem.assignment? selection = some full)
    (scored : problem.scoreOf full = .ok score) (epoch : Nat) :
    (problem.LinksCarried selection ∧ ∃ wires junctions,
      problem.Outline full selection full.eraseDups (problem.assemble full.eraseDups).1
          (problem.assemble full.eraseDups).2 wires junctions ∧
        problem.Reads selection wires ∧ problem.build ⟨selection, score⟩ epoch =
          ExecutionPlan.create (problem.assemble full.eraseDups).1 junctions score epoch) ∨
    (¬ problem.LinksCarried selection ∧ ∃ producer consumer,
      problem.build ⟨selection, score⟩ epoch =
        .error (.noCompatibleChannel producer consumer)) := by
  have distinct : full.eraseDups.Nodup := nodup_eraseDups full
  have listed : ∀ candidate, candidate ∈ full.eraseDups ↔ candidate ∈ selection := by
    intro candidate
    rw [List.mem_eraseDups, ← (cover.fills.used_perm cover.prepared).mem_iff, List.mem_filter,
      List.contains_iff_mem, List.mem_range]
    refine ⟨fun used => ⟨?_, used⟩, fun both => both.2⟩
    obtain ⟨place, found⟩ := List.mem_iff_getElem?.mp used
    rw [← getD_map_some] at found
    exact cover.fills.known _ ((cover.fills.holds place candidate).mp found).1
  have known : ∀ candidate ∈ full.eraseDups, candidate < problem.candidates.length :=
    fun candidate here => cover.fills.known candidate ((listed candidate).mp here)
  have assembled := assembled_assemble distinct known
  have carried : problem.LinksCarried full.eraseDups ↔ problem.LinksCarried selection := by
    simp only [LinksCarried, listed]
  obtain ⟨outcomes, found, handed⟩ := cover.handed_of_scoreOf scored
  obtain ⟨groups, grouped, realized⟩ := groupJunctions_ok assembled listed found handed
  rcases linkJunctions_cases assembled
    (fun candidate here => cover.used candidate ((listed candidate).mp here)) known with
    ⟨links, linked, all, realized'⟩ | ⟨error, failed, missing, producer, consumer, rfl⟩
  · refine Or.inl ⟨carried.mp all, _, _, ⟨cover, listed, assembled,
      cover.spans distinct listed handed, List.rel_append realized' realized⟩,
      cover.reads distinct listed handed, ?_⟩
    simp only [build, complete, linked, grouped]
    rfl
  · refine Or.inr ⟨fun all => missing (carried.mpr all), producer, consumer, ?_⟩
    simp only [build, complete, failed]
    rfl

/-- Where all slots are named once what is laid out joins each slot once. -/
theorem build_laid (cover : problem.ExactCover full selection) {score : Score α}
    (complete : problem.assignment? selection = some full)
    (scored : problem.scoreOf full = .ok score) (epoch : Nat) :
    (problem.LinksCarried selection ∧ ∃ chosen tasks numbers wires junctions,
      problem.Laid full selection chosen tasks numbers wires junctions ∧
        problem.build ⟨selection, score⟩ epoch =
          ExecutionPlan.create tasks junctions score epoch) ∨
    (¬ problem.LinksCarried selection ∧ ∃ producer consumer,
      problem.build ⟨selection, score⟩ epoch =
        .error (.noCompatibleChannel producer consumer)) := by
  refine (build_outline cover.base complete scored epoch).imp_left ?_
  rintro ⟨carried, wires, junctions, outline, reads, same⟩
  exact ⟨carried, _, _, _, wires, junctions,
    ⟨outline, cover.base.connects outline.spans reads cover.readOnce⟩, same⟩

end Groups

theorem parts_of_build [Quantity α] {solution : Solution α} {epoch : Nat}
    {executable : ExecutionPlan α} (success : problem.build solution epoch = .ok executable) :
    ∃ full links handed, problem.assignment? solution.selection = some full ∧
      full.eraseDups.mapM (problem.linkJunctions (problem.assemble full.eraseDups).2) = .ok links ∧
      problem.groupJunctions (problem.assemble full.eraseDups).2 full = .ok handed ∧
      executable.tasks = (problem.assemble full.eraseDups).1 ∧
      executable.junctions = links.flatten ++ handed ∧ executable.score = solution.score := by
  unfold build at success
  split at success
  · cases success
  next full complete =>
  obtain ⟨links, linked, success⟩ := bind_ok_iff.mp success
  obtain ⟨handed, grouped, success⟩ := bind_ok_iff.mp success
  obtain ⟨order, -, success⟩ := bind_ok_iff.mp success
  cases success
  exact ⟨full, links, handed, complete, linked, grouped, rfl, rfl, rfl⟩

theorem cover_of_create [Quantity α] {registry : RuleRegistry α} {plan : Plan}
    {estimator sizing : Estimator α} {weights : CostWeights α} {known statistics : PlanStatistics}
    {epoch : Nat} {candidates : List (Candidate α)} {config : OptimizerConfig α}
    (accepted : ∀ rule ∈ registry.rules, rule.pattern.Accepted)
    (built : plan.Built) (valid : plan.validate = .ok ())
    (matched : registry.candidates estimator weights plan known epoch = .ok candidates)
    (created : create plan candidates sizing statistics config = .ok problem)
    {full selection : List Nat} (covers : problem.assignment? selection = some full)
    (used : ∀ candidate ∈ selection, ∀ found, problem.candidates[candidate]? = some found →
      found.replacement.SlotsUsed) :
    problem.Cover full selection := by
  have prepared := prepared_of_create accepted built matched created
  obtain ⟨rfl, rfl, -⟩ := create_ok created
  exact ⟨prepared, built.wellFormed, (Plan.validate_ok built.wellFormed valid).2,
    RuleRegistry.joined_of_mem accepted built.wellFormed matched, used,
    fills_of_assignment? prepared covers⟩

theorem exactCover_of_create [Quantity α] {registry : RuleRegistry α} {plan : Plan}
    {estimator sizing : Estimator α} {weights : CostWeights α} {known statistics : PlanStatistics}
    {epoch : Nat} {candidates : List (Candidate α)} {config : OptimizerConfig α}
    (accepted : ∀ rule ∈ registry.rules, rule.pattern.Accepted)
    (complete : ∀ rule ∈ registry.rules, ∀ operators epoch replacement,
      rule.factory operators epoch = .ok replacement → replacement.SlotComplete)
    (built : plan.Built) (valid : plan.validate = .ok ())
    (matched : registry.candidates estimator weights plan known epoch = .ok candidates)
    (created : create plan candidates sizing statistics config = .ok problem)
    {full selection : List Nat} (covers : problem.assignment? selection = some full) :
    problem.ExactCover full selection := by
  have named : ∀ candidate ∈ problem.candidates, candidate.replacement.SlotComplete := by
    obtain ⟨rfl, rfl, -⟩ := create_ok created
    intro candidate present
    obtain ⟨rule, operators, derived⟩ := RuleRegistry.derived_of_mem matched present
    exact complete rule (List.mem_of_getElem? derived.registered) _ _ _ derived.made
  have base := cover_of_create accepted built valid matched created covers
    fun _ _ found known => (named found (List.mem_of_getElem? known)).used
  exact ⟨base.prepared, base.formed, base.connected, base.joined, named, base.fills⟩

theorem slotComplete_of_builtin {rule : Rule α} (listed : rule ∈ builtinRules)
    (operators : List Operator) (epoch : Nat) (replacement : Replacement α)
    (made : rule.factory operators epoch = .ok replacement) : replacement.SlotComplete := by
  obtain ⟨operator, rfl⟩ := single_of_builtin listed made
  exact Replacement.slotComplete_single operator

/-- A solution is built exactly when its links can carry rows and none of its operators feeds
itself; otherwise the error says which of the two is missing. -/
theorem build_isOk_iff [Quantity α] {registry : RuleRegistry α} {plan : Plan}
    {estimator sizing : Estimator α} {weights : CostWeights α} {known statistics : PlanStatistics}
    {epoch round : Nat} {candidates : List (Candidate α)} {config : OptimizerConfig α}
    (accepted : ∀ rule ∈ registry.rules, rule.pattern.Accepted)
    (complete : ∀ rule ∈ registry.rules, ∀ operators epoch replacement,
      rule.factory operators epoch = .ok replacement → replacement.SlotComplete)
    (built : plan.Built) (valid : plan.validate = .ok ())
    (matched : registry.candidates estimator weights plan known epoch = .ok candidates)
    (created : create plan candidates sizing statistics config = .ok problem)
    {solution : Solution α} (solved : problem.solve = .ok solution) :
    ((∃ executable, problem.build solution round = .ok executable) ↔
      problem.LinksCarried solution.selection ∧
        ∀ site, ¬ Relation.TransGen (problem.Feeds solution.selection) site site) ∧
    ∀ error, problem.build solution round = .error error →
      (problem.LinksCarried solution.selection ∧ error = .internal "task graph is cyclic") ∨
      (¬ problem.LinksCarried solution.selection ∧
        ∃ producer consumer, error = .noCompatibleChannel producer consumer) := by
  have prepared := prepared_of_create accepted built matched created
  obtain ⟨full, covers, scored⟩ := score?_eq_some.mp (score?_of_solve prepared solved)
  have cover := exactCover_of_create accepted complete built valid matched created covers
  rcases build_laid cover covers scored round with
    ⟨carried, chosen, tasks, numbers, wires, junctions, laid, same⟩ |
    ⟨missing, producer, consumer, failed⟩
  · rw [same]
    rcases laid.create_cases solution.score round with
      ⟨acyclic, order, -, made⟩ | ⟨cyclic, failed⟩
    · rw [made]
      refine ⟨⟨fun _ => ⟨carried, acyclic⟩, fun _ => ⟨_, rfl⟩⟩, fun error failed => ?_⟩
      cases failed
    · rw [failed]
      refine ⟨⟨?_, fun both => absurd both.2 cyclic⟩, fun error same => ?_⟩
      · rintro ⟨_, made⟩
        cases made
      · cases same
        exact Or.inl ⟨carried, rfl⟩
  · rw [failed]
    refine ⟨⟨?_, fun both => absurd both.1 missing⟩, fun error same => ?_⟩
    · rintro ⟨_, made⟩
      cases made
    · cases same
      exact Or.inr ⟨missing, producer, consumer, rfl⟩

/-- The solution of the problem with six candidates is built, as no data comes back in it. -/
theorem build_isOk_adults : ∃ solution executable, adultsProblem.solve = .ok solution ∧
    adultsProblem.build solution 0 = .ok executable := by
  have builtin : ∀ rule ∈ adultsRegistry.rules, rule ∈ builtinRules := by
    intro rule listed
    obtain ⟨kind, -, listed⟩ := List.mem_flatMap.mp listed
    obtain ⟨platform, -, rfl⟩ := List.mem_map.mp listed
    exact mem_builtinRules.mpr (Or.inl ⟨platform, kind, rfl⟩)
  have accepted : ∀ rule ∈ adultsRegistry.rules, rule.pattern.Accepted :=
    fun rule listed => accepted_builtin rule (builtin rule listed)
  have complete : ∀ rule ∈ adultsRegistry.rules, ∀ operators epoch replacement,
      rule.factory operators epoch = .ok replacement → replacement.SlotComplete := by
    intro rule listed operators epoch replacement made
    obtain ⟨operator, rfl⟩ := single_of_builtin (builtin rule listed) made
    exact Replacement.slotComplete_single operator
  have solvable : adultsProblem.solve.isOk = true := by decide +kernel
  have unlinked : ∀ candidate ∈ adultsProblem.candidates, candidate.replacement.links = [] := by
    decide +kernel
  have forward : ∀ candidate ∈ adultsProblem.candidates, ∀ input ∈ candidate.matched.inputs,
      ∀ output ∈ candidate.matched.outputs, adultsProblem.order.idxOf input.operator ≤
        adultsProblem.order.idxOf output.operator := by
    decide +kernel
  cases solved : adultsProblem.solve with
  | error error =>
    rw [solved] at solvable
    cases solvable
  | ok solution =>
    have prepared := prepared_of_create accepted built_adults adults_matched adults_created
    have carried : adultsProblem.LinksCarried solution.selection := by
      intro candidate _ found known link present
      rw [unlinked found (List.mem_of_getElem? known)] at present
      cases present
    obtain ⟨executable, made⟩ := (build_isOk_iff accepted complete built_adults rfl adults_matched
      adults_created solved).1.mpr ⟨carried, acyclic_of_forward built_adults.wellFormed prepared
        unlinked forward solution.selection⟩
    exact ⟨solution, executable, rfl, made⟩

end Problem

end CrossPlan
