import CrossPlan.Compiler
import CrossPlan.Proofs.Rule.Coverage
import CrossPlan.Proofs.Results

/-!
# Plans that can be read are compiled

A valid plan whose texts can be read is compiled by the built-in rules, whatever its rows cost and
however its candidates are searched.  The candidates behind the tasks cover each operator once.
-/

set_option autoImplicit false

namespace CrossPlan

open Sequence

variable {α : Type}

def candidatesBehind (tasks : List (Task α)) (candidates : List (Candidate α)) :
    List (Candidate α) :=
  (tasks.map (·.candidate)).eraseDups.filterMap (candidates[·]?)

namespace Problem

variable {problem : Problem α}

/-! ## Where tasks come from -/

theorem origin_of_assemble {chosen : List Nat} {task : Task α}
    (present : task ∈ (problem.assemble chosen).1) :
    ∃ candidate ∈ problem.candidates,
      task.candidate = candidate.id ∧ task.origin = candidate.covered := by
  induction chosen using List.reverseRecOn with
  | nil => cases present
  | append_singleton chosen place ih =>
    rw [assemble, List.foldl_append, List.foldl_cons, List.foldl_nil, ← assemble] at present
    cases known : problem.candidates[place]? with
    | none =>
      rw [known] at present
      exact ih present
    | some candidate =>
      rw [known] at present
      rcases List.mem_append.mp present with earlier | own
      · exact ih earlier
      · obtain ⟨entry, -, rfl⟩ := List.mem_map.mp own
        exact ⟨candidate, List.mem_of_getElem? known, rfl, rfl⟩

namespace Laid

variable [Quantity α] {full selection chosen : List Nat} {tasks : List (Task α)}
  {numbers : TaskNumbers} {wires : List Wire} {junctions : List (Junction α)}

theorem mem_behind (laid : problem.Laid full selection chosen tasks numbers wires junctions)
    (numbered : ∀ (place : Nat) (candidate : Candidate α),
      problem.candidates[place]? = some candidate → candidate.id = place)
    (single : ∀ candidate ∈ problem.candidates, ∃ operator,
      candidate.replacement = .single operator) {candidate : Nat} :
    candidate ∈ (tasks.map (·.candidate)).eraseDups ↔ candidate ∈ selection := by
  rw [List.mem_eraseDups, List.mem_map]
  constructor
  · rintro ⟨task, present, rfl⟩
    obtain ⟨number, here⟩ := List.mem_iff_getElem?.mp present
    obtain ⟨candidate, listed, found, _, known, -, named, -⟩ :=
      laid.assembled.site number task here
    rw [named, numbered candidate found known]
    exact (laid.listed candidate).mp listed
  · intro among
    have listed := (laid.listed candidate).mpr among
    have known := List.getElem?_eq_getElem (laid.cover.fills.known candidate among)
    obtain ⟨operator, made⟩ := single _ (List.mem_of_getElem? known)
    have first : problem.operatorAt? candidate 0 = some operator := by
      rw [operatorAt?, known, Option.bind_some, made]
      rfl
    obtain ⟨task, here, -⟩ := laid.assembled.task candidate listed 0 operator first
    refine ⟨task, List.mem_of_getElem? here, ?_⟩
    obtain ⟨other, listed', found, place, known', member, named, same⟩ :=
      laid.assembled.site _ task here
    have there : (problem.operatorAt? other place).isSome = true := by
      rw [operatorAt?, known', Option.bind_some, member]
      rfl
    obtain ⟨rfl, -⟩ := laid.assembled.apart candidate listed other listed' 0 place
      (Option.isSome_of_eq_some first) there same
    rw [named, numbered candidate found known']

theorem behind_perm (laid : problem.Laid full selection chosen tasks numbers wires junctions)
    (numbered : ∀ (place : Nat) (candidate : Candidate α),
      problem.candidates[place]? = some candidate → candidate.id = place)
    (single : ∀ candidate ∈ problem.candidates, ∃ operator,
      candidate.replacement = .single operator) :
    ((candidatesBehind tasks problem.candidates).flatMap (·.covered)).Perm
      (List.range problem.plan.size) := by
  have behind : ∀ place, place ∈ (tasks.map (·.candidate)).eraseDups ↔ place ∈ selection :=
    fun _ => laid.mem_behind numbered single
  have mem : ∀ found, found ∈ candidatesBehind tasks problem.candidates ↔
      ∃ place ∈ selection, problem.candidates[place]? = some found := by
    intro found
    simp only [candidatesBehind, List.mem_filterMap, behind]
  refine (List.perm_ext_iff_of_nodup (List.nodup_flatMap.mpr ⟨?_, ?_⟩) List.nodup_range).mpr ?_
  · intro found listed
    obtain ⟨place, -, known⟩ := (mem found).mp listed
    exact laid.cover.prepared.distinct found (List.mem_of_getElem? known)
  · refine List.pairwise_filterMap.mpr ((nodup_eraseDups _).imp_of_mem ?_)
    intro first second listed listed' apart found known found' known' id covered covered'
    exact apart (laid.cover.stands_unique ((behind first).mp listed) ((behind second).mp listed')
      ⟨found, known, covered⟩ ⟨found', known', covered'⟩)
  · intro id
    rw [List.mem_flatMap, List.mem_range]
    constructor
    · rintro ⟨found, listed, covered⟩
      obtain ⟨place, -, known⟩ := (mem found).mp listed
      exact (Plan.mem_order laid.cover.prepared.order).mp
        (laid.cover.prepared.within found (List.mem_of_getElem? known) id covered)
    · intro within
      obtain ⟨place, among, found, known, covered⟩ := laid.cover.exists_stands within
      exact ⟨found, (mem found).mpr ⟨place, among, known⟩, covered⟩

end Laid

end Problem

/-! ## Compiling -/

section

variable [Quantity α] {plan : Plan}

/-- A built-in selection is always built, as data never comes back in it. -/
theorem Problem.build_of_builtin {problem : Problem α} {estimator sizing : Estimator α}
    {weights : CostWeights α} {known statistics : PlanStatistics} {epoch : Nat}
    {candidates : List (Candidate α)} {config : OptimizerConfig α} (built : plan.Built)
    (valid : plan.validate = .ok ())
    (matched : RuleRegistry.builtin.candidates estimator weights plan known epoch = .ok candidates)
    (created : create plan candidates sizing statistics config = .ok problem)
    {solution : Solution α} (scored : problem.score? solution.selection = some solution.score)
    (round : Nat) : ∃ executable, problem.build solution round = .ok executable ∧
      ((candidatesBehind executable.tasks candidates).flatMap (·.covered)).Perm
        (List.range plan.size) := by
  have formed := built.wellFormed
  have prepared := prepared_of_create accepted_builtin built matched created
  obtain ⟨full, covers, scored⟩ := score?_eq_some.mp scored
  have cover := exactCover_of_create accepted_builtin (fun _ => slotComplete_of_builtin) built
    valid matched created covers
  have builtin : ∀ candidate ∈ candidates, candidate.Builtin plan :=
    fun _ => RuleRegistry.builtin_of_mem formed matched
  have single : ∀ candidate ∈ candidates, ∃ operator, candidate.replacement = .single operator := by
    intro candidate present
    obtain ⟨action, name, platform, epoch, made⟩ := (builtin candidate present).single
    exact ⟨_, made⟩
  obtain ⟨rfl, rfl, -, ordered, -⟩ := create_ok created
  have unlinked : ∀ candidate ∈ problem.candidates, candidate.replacement.links = [] := by
    intro candidate present
    obtain ⟨operator, made⟩ := single candidate present
    rw [made]
    rfl
  have carried : problem.LinksCarried solution.selection := by
    intro candidate _ found known link present
    rw [unlinked found (List.mem_of_getElem? known)] at present
    cases present
  have acyclic := acyclic_of_forward formed prepared unlinked
    (fun candidate present input entering output leaving =>
      (builtin candidate present).forward formed ordered entering leaving) solution.selection
  obtain ⟨-, chosen, tasks, numbers, wires, junctions, laid, same⟩ :=
    (build_laid cover covers scored round).resolve_right fun missing => missing.1 carried
  obtain ⟨-, order, -, made⟩ := (laid.create_cases solution.score round).resolve_right
    fun cyclic => cyclic.1 acyclic
  exact ⟨_, same.trans made, laid.behind_perm
    (fun _ _ => RuleRegistry.id_of_getElem? matched) single⟩

/-- A valid plan that can be read is compiled by the built-in rules, and the candidates behind its
tasks cover each operator once. -/
theorem Compiler.compile_isOk {compiler : Compiler α} (registry : compiler.registry = .builtin)
    (built : plan.Built) (valid : plan.validate = .ok ()) (readable : plan.Readable)
    (hints : Hints) : ∃ known candidates executable,
      compiler.candidates plan hints compiler.epoch = .ok (known, candidates) ∧
      compiler.compile plan hints = .ok executable ∧
      ((candidatesBehind executable.tasks candidates).flatMap (·.covered)).Perm
        (List.range plan.size) ∧
      ∀ task ∈ executable.tasks, ∃ candidate ∈ candidates,
        task.candidate = candidate.id ∧ task.origin = candidate.covered := by
  have formed := built.wellFormed
  obtain ⟨⟨order, ordered⟩, -⟩ := Plan.validate_ok formed valid
  obtain ⟨known, sized⟩ : ∃ known, plan.statistics hints compiler.config.estimator = .ok known :=
    ⟨_, bind_ok_iff.mpr ⟨order, ordered, rfl⟩⟩
  obtain ⟨candidates, matched⟩ := builtin_candidates_isOk formed readable.bound
    readable.broadcasts compiler.estimator compiler.config.optimizer.weights known compiler.epoch
  obtain ⟨problem, created⟩ := Problem.create_isOk ordered candidates compiler.estimator known
    compiler.config.optimizer
  have prepared := Problem.prepared_of_create accepted_builtin built matched created
  obtain ⟨solution, solved⟩ := Problem.solve_of_builtin built readable matched created
  obtain ⟨executable, made, once⟩ := Problem.build_of_builtin built valid matched created
    (Problem.score?_of_solve prepared solved) compiler.epoch
  have found : compiler.candidates plan hints compiler.epoch = .ok (known, candidates) := by
    refine bind_ok_iff.mpr ⟨(), mapError_ok_iff.mpr valid, bind_ok_iff.mpr
      ⟨known, mapError_ok_iff.mpr sized, bind_ok_iff.mpr ⟨candidates, ?_, rfl⟩⟩⟩
    rw [registry]
    exact mapError_ok_iff.mpr matched
  refine ⟨known, candidates, executable, found, ?_, once, fun task present => ?_⟩
  · exact bind_ok_iff.mpr ⟨_, found, bind_ok_iff.mpr ⟨problem, mapError_ok_iff.mpr created,
      mapError_ok_iff.mpr (bind_ok_iff.mpr ⟨solution, solved, made⟩)⟩⟩
  · obtain ⟨_, _, _, -, -, -, tasks, -⟩ := Problem.parts_of_build made
    rw [tasks] at present
    obtain ⟨-, rfl, -⟩ := Problem.create_ok created
    exact Problem.origin_of_assemble present

def hastyCompiler : Compiler Rat :=
  .create .builtin Problem.uniformCosts
    { EngineConfig.standard with optimizer := ⟨3, Platform.all, .standard⟩ }

theorem Compiler.compile_isOk_travel : ∃ known candidates executable,
    hastyCompiler.candidates Problem.travel .empty 0 = .ok (known, candidates) ∧
      hastyCompiler.compile Problem.travel .empty = .ok executable ∧
      ((candidatesBehind executable.tasks candidates).flatMap (·.covered)).Perm
        [0, 1, 2, 3, 4, 5] := by
  have registry : hastyCompiler.registry = .builtin := rfl
  obtain ⟨known, candidates, executable, found, made, once, -⟩ := Compiler.compile_isOk registry
    Problem.built_travel rfl Problem.bindable_travel.readable .empty
  exact ⟨known, candidates, executable, found, made, once⟩

end

end CrossPlan
