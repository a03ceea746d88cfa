import CrossPlan.Proofs.Selection.Building
import Mathlib.Tactic.FinCases

/-!
# Outputs that are read more than once

Each link of a replacement becomes a junction of its own, and each output that is handed over
another one.  A replacement that reads one of its outputs twice therefore gets two junctions from
it, and the task graph is refused, though everything else about the selection may be in order.
-/

set_option autoImplicit false

namespace CrossPlan.Problem

open Sequence

variable {α : Type} {problem : Problem α}

def Shared (problem : Problem α) (output : CandidateSlot) (operator : BoundOperator α) : Prop :=
  ∃ found, problem.candidates[output.candidate]? = some found ∧
    found.replacement.operators[output.slot.operator]? = some operator ∧
    1 < found.replacement.read.count output.slot

/-- An output has one junction, which leads once to each input that it is joined with. -/
def CarriedWhole (problem : Problem α) (selection : List Nat) (numbers : TaskNumbers)
    (junctions : List (Junction α)) (output : CandidateSlot) : Prop :=
  ∃ junction, junctions.filter (·.producer = slotAt numbers output) = [junction] ∧
    (junction.targets.map (·.consumer)).Nodup ∧
    ∀ consumer, consumer ∈ junction.targets.map (·.consumer) ↔
      ∃ input, problem.Wired selection output input ∧ slotAt numbers input = consumer

section Outputs

variable [Quantity α] {full selection chosen : List Nat} {tasks : List (Task α)}
  {numbers : TaskNumbers} {wires : List Wire} {junctions : List (Junction α)}

theorem Outline.count_carried
    (outline : problem.Outline full selection chosen tasks numbers wires junctions)
    (reads : problem.Reads selection wires) {candidate : Nat} {found : Candidate α}
    (listed : candidate ∈ selection) (known : problem.candidates[candidate]? = some found)
    {slot : SlotRef} (has : found.replacement.HasOutput slot) :
    (TaskGraph.carried junctions).count (slotAt numbers ⟨candidate, slot⟩) =
      found.replacement.read.count slot := by
  obtain ⟨operator, here, -⟩ := has
  have own : (problem.operatorAt? candidate slot.operator).isSome = true := by
    rw [operatorAt?, known, Option.bind_some, here]
    rfl
  rw [carried_eq outline.realized, ← reads candidate listed found known, List.count,
    List.countP_map]
  refine List.countP_congr fun producer among => ?_
  obtain ⟨wire, present, rfl⟩ := List.mem_map.mp among
  obtain ⟨_, -, wired⟩ := outline.exists_wired present
  obtain ⟨listed', _, known', -⟩ := outline.operator_of_output wired
  rw [Function.comp_apply, beq_iff_eq, beq_iff_eq]
  exact ⟨slotAt_inj outline.assembled listed' ((outline.listed candidate).mpr listed)
    (Option.isSome_of_eq_some known') own, fun same => same ▸ rfl⟩

theorem Outline.readOnce_of_joined
    (outline : problem.Outline full selection chosen tasks numbers wires junctions)
    (reads : problem.Reads selection wires)
    (joined : ∀ task ∈ tasks, TaskGraph.Joined junctions task) :
    problem.ReadOnce selection := by
  intro candidate listed found known
  refine List.nodup_iff_count_le_one.mpr fun slot => ?_
  by_cases named : slot ∈ found.replacement.read
  · have has := (outline.cover.used candidate listed found known).readKnown slot named
    rw [← outline.count_carried reads listed known has]
    obtain ⟨operator, here, within⟩ := has
    obtain ⟨task, there, rfl⟩ := outline.assembled.task candidate
      ((outline.listed candidate).mpr listed) slot.operator operator (by
        rw [operatorAt?, known, Option.bind_some, here])
    have once := (joined task (List.mem_of_getElem? there)).carried slot.slot within
    rw [outline.assembled.id_eq there] at once
    exact once.le
  · exact (List.count_eq_zero_of_not_mem named).trans_le (Nat.zero_le 1)

/-- A task graph in which an output has more than one junction is refused for such an output. -/
theorem Outline.create_shared
    (outline : problem.Outline full selection chosen tasks numbers wires junctions)
    (reads : problem.Reads selection wires) (shared : ¬ problem.ReadOnce selection)
    (score : Score α) (epoch : Nat) :
    ∃ output operator, output.candidate ∈ selection ∧ problem.Shared output operator ∧
      ExecutionPlan.create tasks junctions score epoch =
        .error (TaskGraph.noSingleJunction (slotAt numbers output) operator.name) := by
  rcases TaskGraph.verify_cases outline.carries fun task present slot => outline.count_fed present
    with joined | ⟨task, present, slot, within, many, failed⟩
  · exact absurd (outline.readOnce_of_joined reads joined) shared
  · obtain ⟨number, there⟩ := List.mem_iff_getElem?.mp present
    obtain ⟨candidate, listed, found, place, known, here, -, rfl⟩ :=
      outline.assembled.site number task there
    rw [outline.listed] at listed
    have has : found.replacement.HasOutput ⟨place, slot⟩ := ⟨task.operator, here, within⟩
    rw [outline.assembled.id_eq there] at many failed
    refine ⟨⟨candidate, ⟨place, slot⟩⟩, task.operator, listed, ⟨found, known, here, ?_⟩, ?_⟩
    -- the output is read somewhere, so that it has no single junction for being read again
    · have read := (outline.cover.used candidate listed found known).readUsed _ has
      have some := List.count_pos_iff.mpr read
      have other : found.replacement.read.count ⟨place, slot⟩ ≠ 1 :=
        outline.count_carried reads listed known has ▸ many
      change 1 < found.replacement.read.count ⟨place, slot⟩
      omega
    · rw [ExecutionPlan.create, failed]
      rfl

/-- Where no output is read twice, the one junction of an output leads to all its consumers. -/
theorem Laid.carriedWhole
    (laid : problem.Laid full selection chosen tasks numbers wires junctions) {candidate : Nat}
    {found : Candidate α} (listed : candidate ∈ selection)
    (known : problem.candidates[candidate]? = some found) {slot : SlotRef}
    (has : found.replacement.HasOutput slot) :
    problem.CarriedWhole selection numbers junctions ⟨candidate, slot⟩ := by
  obtain ⟨input, wired⟩ := laid.cover.exists_wired_from listed known has
  obtain ⟨wire, present, same, -⟩ := (laid.spans.wired _ _).mp wired
  obtain ⟨junction, here, realizes⟩ := mem_left laid.realized present
  have producer : junction.producer = slotAt numbers ⟨candidate, slot⟩ :=
    same ▸ realizes.producer
  have alone : junctions.filter (·.producer = slotAt numbers ⟨candidate, slot⟩) = [junction] := by
    have once : (TaskGraph.carried junctions).count (slotAt numbers ⟨candidate, slot⟩) = 1 :=
      List.count_eq_one_of_mem (laid.nodup_carried laid.connects.producers)
        (producer ▸ List.mem_map_of_mem here)
    have single :
        (junctions.filter (·.producer = slotAt numbers ⟨candidate, slot⟩)).length = 1 := by
      rw [← List.countP_eq_length_filter, ← once, TaskGraph.carried, List.count, List.countP_map]
      exact List.countP_congr fun other _ => by simp
    obtain ⟨only, held⟩ := List.length_eq_one_iff.mp single
    have among : junction ∈ [only] := held ▸ List.mem_filter.mpr ⟨here, by simpa using producer⟩
    rw [held, List.mem_singleton.mp among]
  refine ⟨junction, alone, (List.nodup_flatMap.mp laid.nodup_fed).1 junction here,
    fun consumer => ?_⟩
  rw [consumers_eq realizes, List.mem_map]
  refine exists_congr fun input => and_congr_left fun _ => ?_
  rw [laid.spans.wired]
  constructor
  · exact fun member => ⟨wire, present, same, member⟩
  · rintro ⟨wire', present', same', member⟩
    have equal := List.inj_on_of_nodup_map laid.connects.producers present present'
      (same.trans same'.symm)
    exact equal ▸ member

end Outputs

/-- A selection of replacements that use all their slots is built exactly when its links can carry
rows, none of its outputs is read twice and none of its operators feeds itself.  Each output then
has one junction for all its consumers; otherwise the error says what is in the way. -/
theorem build_isOk_iff_readOnce [Quantity α] {registry : RuleRegistry α} {plan : Plan}
    {estimator sizing : Estimator α} {weights : CostWeights α} {known statistics : PlanStatistics}
    {epoch : Nat} {candidates : List (Candidate α)} {config : OptimizerConfig α}
    (accepted : ∀ rule ∈ registry.rules, rule.pattern.Accepted)
    (built : plan.Built) (valid : plan.validate = .ok ())
    (matched : registry.candidates estimator weights plan known epoch = .ok candidates)
    (created : create plan candidates sizing statistics config = .ok problem)
    {selection : List Nat} {score : Score α} (scored : problem.score? selection = some score)
    (used : ∀ candidate ∈ selection, ∀ found, problem.candidates[candidate]? = some found →
      found.replacement.SlotsUsed) (round : Nat) :
    ∃ full, problem.assignment? selection = some full ∧
    ((∃ executable, problem.build ⟨selection, score⟩ round = .ok executable) ↔
      problem.LinksCarried selection ∧ problem.ReadOnce selection ∧
        ∀ site, ¬ Relation.TransGen (problem.Feeds selection) site site) ∧
    (∀ executable, problem.build ⟨selection, score⟩ round = .ok executable →
      executable.tasks = (problem.assemble full.eraseDups).1 ∧
      ∀ candidate ∈ selection, ∀ found, problem.candidates[candidate]? = some found →
        ∀ slot, found.replacement.HasOutput slot →
          problem.CarriedWhole selection (problem.assemble full.eraseDups).2 executable.junctions
            ⟨candidate, slot⟩) ∧
    ∀ error, problem.build ⟨selection, score⟩ round = .error error →
      (¬ problem.LinksCarried selection ∧
        ∃ producer consumer, error = .noCompatibleChannel producer consumer) ∨
      (problem.LinksCarried selection ∧ ∃ output operator, output.candidate ∈ selection ∧
        problem.Shared output operator ∧ error = TaskGraph.noSingleJunction
          (slotAt (problem.assemble full.eraseDups).2 output) operator.name) ∨
      (problem.LinksCarried selection ∧ problem.ReadOnce selection ∧
        error = .internal "task graph is cyclic") := by
  obtain ⟨full, covers, scored⟩ := score?_eq_some.mp scored
  have cover := cover_of_create accepted built valid matched created covers used
  refine ⟨full, covers, ?_⟩
  -- the links are looked at first, then the outputs, and the order of the tasks comes last
  rcases build_outline cover covers scored round with
    ⟨carried, wires, junctions, outline, reads, same⟩ | ⟨missing, producer, consumer, failed⟩
  · rw [same]
    by_cases once : problem.ReadOnce selection
    · have laid : problem.Laid full selection _ _ _ wires junctions :=
        ⟨outline, cover.connects outline.spans reads once⟩
      rcases laid.create_cases score round with ⟨acyclic, order, -, made⟩ | ⟨cyclic, failed⟩
      · rw [made]
        refine ⟨⟨fun _ => ⟨carried, once, acyclic⟩, fun _ => ⟨_, rfl⟩⟩, ?_, ?_⟩
        · rintro _ ⟨⟩
          exact ⟨rfl, fun candidate listed found known slot => laid.carriedWhole listed known⟩
        · rintro error ⟨⟩
      · rw [failed]
        refine ⟨⟨?_, fun all => absurd all.2.2 cyclic⟩, ?_, ?_⟩
        · rintro ⟨_, ⟨⟩⟩
        · rintro _ ⟨⟩
        · rintro _ ⟨⟩
          exact Or.inr (Or.inr ⟨carried, once, rfl⟩)
    · obtain ⟨output, operator, listed, shared, failed⟩ :=
        outline.create_shared reads once score round
      rw [failed]
      refine ⟨⟨?_, fun all => absurd all.2.1 once⟩, ?_, ?_⟩
      · rintro ⟨_, ⟨⟩⟩
      · rintro _ ⟨⟩
      · rintro _ ⟨⟩
        exact Or.inr (Or.inl ⟨carried, output, operator, listed, shared, rfl⟩)
  · rw [failed]
    refine ⟨⟨?_, fun all => absurd all.1 missing⟩, ?_, ?_⟩
    · rintro ⟨_, ⟨⟩⟩
    · rintro _ ⟨⟩
    · rintro _ ⟨⟩
      exact Or.inl ⟨missing, producer, consumer, rfl⟩

/-! ## A replacement that reads an output twice -/

def copies : Plan :=
  { operators :=
      [.create 0 "source" (.collectionSource []), .create 1 "renamed" (.map ""),
        .create 2 "out" (.sink "memory://copies")]
    edges := [⟨⟨0, 0⟩, ⟨1, 0⟩⟩, ⟨⟨1, 0⟩, ⟨2, 0⟩⟩] }

theorem built_copies : copies.Built := by
  have operators := ((Plan.Built.empty.add "source" (.collectionSource [])).add "renamed"
    (.map "")).add "out" (.sink "memory://copies")
  exact (operators.connect ⟨0, 0⟩ ⟨1, 0⟩ rfl).connect ⟨1, 0⟩ ⟨2, 0⟩ rfl

def doubleRule : Rule Rat :=
  { name := "double", pattern := .singleton (.ofKind .map), platform := .inProcess
    factory := fun _ epoch => .ok
      { operators := [(BoundAction.map []).toOperator "copy" .inProcess epoch,
          BoundAction.union.toOperator "join" .inProcess epoch]
        links := [⟨⟨0, 0⟩, ⟨1, 0⟩⟩, ⟨⟨0, 0⟩, ⟨1, 1⟩⟩], inputs := [⟨0, 0⟩], outputs := [⟨1, 0⟩] } }

def copiesRegistry : RuleRegistry Rat :=
  ⟨[kindRule .inProcess .collectionSource, doubleRule, kindRule .inProcess .sink]⟩

def copiesFound : Except MappingError (List (List (Candidate Rat))) :=
  copiesRegistry.rules.zipIdx.mapM fun (rule, place) => (rule.pattern.findMatches copies).mapM
    (RuleRegistry.candidate uniformCosts .standard copies ⟨[]⟩ 0 place rule)

def copiesCandidates : List (Candidate Rat) :=
  (copiesFound.toOption.getD []).flatten.zipIdx.map fun (candidate, place) =>
    { candidate with id := place }

def copiesProblem : Problem Rat :=
  let groups := groupsOf copies [0, 1, 2]
  let covering := [[0], [1], [2]]
  { plan := copies, candidates := copiesCandidates, config := .standard, order := [0, 1, 2]
    covering, groups
    touching := [0, 1, 2].map (touchingOf groups)
    conversionCosts := groups.map (conversionCostsOf uniformCosts .standard ⟨[]⟩)
    lowerShare := covering.map (leastShare? copiesCandidates) }

theorem copies_matched :
    copiesRegistry.candidates uniformCosts .standard copies ⟨[]⟩ 0 = .ok copiesCandidates := by
  have found : copiesFound = .ok (copiesFound.toOption.getD []) := by
    have succeeds : copiesFound.isOk = true := by decide +kernel
    cases outcome : copiesFound with
    | ok found => rfl
    | error error => simp [outcome, Except.isOk, Except.toBool] at succeeds
  have sorted : (copiesFound.toOption.getD []).flatten.Pairwise fun a b =>
      (Candidate.order a b != .gt) = true := by decide +kernel
  refine bind_ok_iff.mpr ⟨_, found, ?_⟩
  rw [Candidate.arrange, List.mergeSort_of_pairwise sorted]
  rfl

theorem copies_created :
    create copies copiesCandidates uniformCosts ⟨[]⟩ .standard = .ok copiesProblem := by
  have order : copies.order = .ok [0, 1, 2] := by decide +kernel
  have covering : [0, 1, 2].map (coveringOf copiesCandidates) = [[0], [1], [2]] := by
    decide +kernel
  unfold create
  rw [order]
  simp only [Except.mapError, copiesProblem, ← covering]
  rfl

theorem copies_rising (output input : CandidateSlot)
    (wired : copiesProblem.Wired [0, 1, 2] output input) :
    output.candidate < input.candidate ∨
      output.candidate = input.candidate ∧ output.slot.operator < input.slot.operator := by
  have forward : ∀ found ∈ copiesProblem.candidates, ∀ link ∈ found.replacement.links,
      link.source.operator < link.target.operator := by
    decide +kernel
  have own : ∀ candidate ∈ [0, 1, 2], ∀ found ∈ copiesProblem.candidates[candidate]?,
      ∀ slot ∈ found.matched.outputs ++ found.matched.inputs, slot.operator = candidate := by
    decide +kernel
  have ahead : ∀ edge ∈ copiesProblem.plan.edges, edge.source.operator < edge.target.operator := by
    decide
  cases wired with
  | link _ known present => exact Or.inr ⟨rfl, forward _ (List.mem_of_getElem? known) _ present⟩
  | edge among among' present gives takes =>
    obtain ⟨found, known, place, here, -⟩ := gives
    obtain ⟨found', known', place', here', -⟩ := takes
    have first := own _ among found known _ (List.mem_append_left _ (List.mem_of_getElem? here))
    have second := own _ among' found' known' _
      (List.mem_append_right _ (List.mem_of_getElem? here'))
    exact Or.inl (first ▸ second ▸ ahead _ present)

/-- The one selection of the plan is scored and its task graph is acyclic, but it is not built, as
the copy is read on both sides of the union. -/
theorem build_isOk_iff_readOnce_copies : ∃ score,
    copiesProblem.score? [0, 1, 2] = some score ∧
    (∀ found ∈ copiesProblem.candidates, found.replacement.SlotsUsed) ∧
    (∀ site, ¬ Relation.TransGen (copiesProblem.Feeds [0, 1, 2]) site site) ∧
    copiesProblem.build ⟨[0, 1, 2], score⟩ 0 =
      .error (.internal "output task1.0 (copy) has no single junction") := by
  have accepted : ∀ rule ∈ copiesRegistry.rules, rule.pattern.Accepted := by
    intro rule listed
    fin_cases listed <;> exact Pattern.accepted_singleton _
  have used : ∀ found ∈ copiesProblem.candidates, found.replacement.SlotsUsed := by
    decide +kernel
  have carried : copiesProblem.LinksCarried [0, 1, 2] := by
    have forms : ∀ found ∈ copiesProblem.candidates, ∀ link ∈ found.replacement.links,
        ∀ source ∈ found.replacement.operators[link.source.operator]?,
        ∀ target ∈ found.replacement.operators[link.target.operator]?,
          source.outputForms link.source.slot ≠ [] ∧ target.inputForms link.target.slot ≠ [] := by
      decide +kernel
    exact fun _ _ found known link present source target first second =>
      forms found (List.mem_of_getElem? known) link present source first target second
  have copy : ∀ candidate ∈ [0, 1, 2], ∀ found ∈ copiesProblem.candidates[candidate]?,
      ∀ slot ∈ found.replacement.read, 1 < found.replacement.read.count slot →
        (⟨candidate, slot⟩ : CandidateSlot) = ⟨1, ⟨0, 0⟩⟩ ∧
          ∀ operator ∈ found.replacement.operators[slot.operator]?, operator.name = "copy" := by
    decide +kernel
  have valid : (copiesProblem.score? [0, 1, 2]).isSome = true := by decide +kernel
  obtain ⟨score, scored⟩ := Option.isSome_iff_exists.mp valid
  have acyclic := acyclic_of_rising copies_rising
  obtain ⟨full, covers, succeeds, -, faults⟩ := build_isOk_iff_readOnce accepted built_copies rfl
    copies_matched copies_created scored
    (fun _ _ found known => used found (List.mem_of_getElem? known)) 0
  obtain rfl : full = [0, 1, 2] := by
    have only : copiesProblem.assignment? [0, 1, 2] = some [0, 1, 2] := by decide +kernel
    exact Option.some.inj (covers.symm.trans only)
  refine ⟨score, scored, used, acyclic, ?_⟩
  have twice : ¬ copiesProblem.ReadOnce [0, 1, 2] := by
    obtain ⟨found, known, many⟩ : ∃ found ∈ copiesProblem.candidates[1]?,
        ¬ found.replacement.read.Nodup := by
      decide +kernel
    exact fun once => many (once 1 (by decide) found known)
  have message : TaskGraph.noSingleJunction
      (slotAt (copiesProblem.assemble [0, 1, 2].eraseDups).2 ⟨1, ⟨0, 0⟩⟩) "copy" =
        .internal "output task1.0 (copy) has no single junction" := by
    decide +kernel
  cases outcome : copiesProblem.build ⟨[0, 1, 2], score⟩ 0 with
  | ok executable => exact absurd (succeeds.mp ⟨executable, outcome⟩).2.1 twice
  | error error =>
    rcases faults error outcome with ⟨missing, -⟩ | ⟨-, output, operator, listed, shared, rfl⟩ |
      ⟨-, once, -⟩
    · exact absurd carried missing
    · obtain ⟨found, known, here, many⟩ := shared
      obtain ⟨same, named⟩ := copy _ listed found known _
        (List.count_pos_iff.mp (Nat.lt_of_succ_lt many)) many
      obtain rfl : output = ⟨1, ⟨0, 0⟩⟩ := same
      rw [named operator here, message]
    · exact absurd once twice

end CrossPlan.Problem
