import CrossPlan.Proofs.Execution.Graph
import CrossPlan.Proofs.Sequence
import CrossPlan.Selection.Assembly
import Mathlib.Data.List.Induction

/-!
# The tasks of a selection

Each operator of a chosen replacement has a task of its own, and each task is there for one of them.
-/

set_option autoImplicit false

namespace CrossPlan.Problem

open Sequence

variable {α : Type} {problem : Problem α}

def operatorAt? (problem : Problem α) (candidate place : Nat) : Option (BoundOperator α) :=
  problem.candidates[candidate]?.bind fun found => found.replacement.operators[place]?

def taskAt (numbers : TaskNumbers) (candidate place : Nat) : Nat :=
  (numbers.lookup candidate).getD 0 + place

def slotAt (numbers : TaskNumbers) (slot : CandidateSlot) : TaskSlot :=
  ⟨taskAt numbers slot.candidate slot.slot.operator, slot.slot.slot⟩

/-- Tasks stand for the operators of candidates, one for each. -/
structure Assembled (problem : Problem α) (chosen : List Nat) (tasks : List (Task α))
    (numbers : TaskNumbers) : Prop where
  ids : tasks.map (·.id) = List.range tasks.length
  numbered : ∀ candidate, (numbers.lookup candidate).isSome = true ↔ candidate ∈ chosen
  task : ∀ candidate ∈ chosen, ∀ place operator,
    problem.operatorAt? candidate place = some operator →
      ∃ task, tasks[taskAt numbers candidate place]? = some task ∧ task.operator = operator
  site : ∀ number task, tasks[number]? = some task → ∃ candidate ∈ chosen, ∃ found place,
    problem.candidates[candidate]? = some found ∧
      found.replacement.operators[place]? = some task.operator ∧ task.candidate = found.id ∧
      number = taskAt numbers candidate place
  apart : ∀ first ∈ chosen, ∀ second ∈ chosen, ∀ place other,
    (problem.operatorAt? first place).isSome = true →
    (problem.operatorAt? second other).isSome = true →
    taskAt numbers first place = taskAt numbers second other → first = second ∧ place = other

namespace Assembled

variable {chosen : List Nat} {tasks : List (Task α)} {numbers : TaskNumbers}

theorem nil : problem.Assembled [] [] [] where
  ids := rfl
  numbered := by simp
  task := by simp
  site := by simp
  apart := by simp

theorem taskAt_lt (assembled : problem.Assembled chosen tasks numbers) {candidate place : Nat}
    (listed : candidate ∈ chosen) (known : (problem.operatorAt? candidate place).isSome = true) :
    taskAt numbers candidate place < tasks.length := by
  obtain ⟨operator, found⟩ := Option.isSome_iff_exists.mp known
  obtain ⟨task, here, -⟩ := assembled.task candidate listed place operator found
  exact (List.getElem?_eq_some_iff.mp here).1

theorem id_eq (assembled : problem.Assembled chosen tasks numbers) {number : Nat} {task : Task α}
    (found : tasks[number]? = some task) : task.id = number :=
  TaskGraph.id_of_numbered assembled.ids found

theorem getElem?_tasksOf {candidate : Candidate α} {start place : Nat} :
    (tasksOf candidate start)[place]? = candidate.replacement.operators[place]?.map fun operator =>
      { id := start + place, operator, origin := candidate.covered, candidate := candidate.id
        rule := candidate.ruleName, estimate := candidate.estimates[place]? } := by
  rw [tasksOf, List.getElem?_map, List.getElem?_zipIdx, Option.map_map, Nat.zero_add]
  rfl

theorem length_tasksOf {candidate : Candidate α} {start : Nat} :
    (tasksOf candidate start).length = candidate.replacement.operators.length := by
  rw [tasksOf, List.length_map, List.length_zipIdx]

theorem ids_tasksOf {candidate : Candidate α} {start : Nat} : (tasksOf candidate start).map (·.id) =
    (List.range candidate.replacement.operators.length).map (start + ·) := by
  rw [tasksOf, List.map_map, List.range_eq_range', ← List.zipIdx_map_snd, List.map_map]
  rfl

theorem push (assembled : problem.Assembled chosen tasks numbers) {place : Nat}
    {candidate : Candidate α} (found : problem.candidates[place]? = some candidate)
    (fresh : place ∉ chosen) :
    problem.Assembled (chosen ++ [place]) (tasks ++ tasksOf candidate tasks.length)
      (numbers ++ [(place, tasks.length)]) := by
  have missing : numbers.lookup place = none := by
    rw [← Option.not_isSome_iff_eq_none, assembled.numbered]
    exact fresh
  have own : ∀ inner, taskAt (numbers ++ [(place, tasks.length)]) place inner =
      tasks.length + inner := by
    intro inner
    simp [taskAt, List.lookup_append, missing]
  have earlier : ∀ other ∈ chosen, ∀ inner,
      taskAt (numbers ++ [(place, tasks.length)]) other inner = taskAt numbers other inner := by
    intro other listed inner
    obtain ⟨start, known⟩ := Option.isSome_iff_exists.mp ((assembled.numbered other).mpr listed)
    simp [taskAt, List.lookup_append, known]
  have operators : ∀ inner, problem.operatorAt? place inner =
      candidate.replacement.operators[inner]? := by
    intro inner
    rw [operatorAt?, found, Option.bind_some]
  refine ⟨?_, ?_, ?_, ?_, ?_⟩
  · rw [List.map_append, assembled.ids, ids_tasksOf, List.length_append, List.range_add,
      length_tasksOf]
  · intro other
    rw [List.lookup_append, List.mem_append, List.mem_singleton, ← assembled.numbered]
    by_cases same : other = place
    · simp [same]
    · have other : List.lookup other [(place, tasks.length)] = none := by
        rw [List.lookup_cons, beq_false_of_ne same]
        rfl
      rw [other, Option.or_none, or_iff_left same]
  · intro other listed inner operator here
    rw [List.mem_append, List.mem_singleton] at listed
    rcases listed with old | rfl
    · obtain ⟨task, held, same⟩ := assembled.task other old inner operator here
      rw [earlier other old]
      exact ⟨task, by rw [List.getElem?_append_left (List.getElem?_eq_some_iff.mp held).1, held],
        same⟩
    · rw [operators] at here
      rw [own, List.getElem?_append_right (Nat.le_add_right _ _), Nat.add_sub_cancel_left,
        getElem?_tasksOf, here]
      exact ⟨_, rfl, rfl⟩
  · intro number task here
    by_cases old : number < tasks.length
    · rw [List.getElem?_append_left old] at here
      obtain ⟨other, listed, held, inner, known, same, named, rfl⟩ :=
        assembled.site number task here
      exact ⟨other, List.mem_append_left _ listed, held, inner, known, same, named,
        (earlier other listed inner).symm⟩
    · rw [List.getElem?_append_right (Nat.le_of_not_lt old), getElem?_tasksOf,
        Option.map_eq_some_iff] at here
      obtain ⟨operator, here, rfl⟩ := here
      refine ⟨place, List.mem_append_right _ List.mem_cons_self, candidate, number - tasks.length,
        found, here, rfl, ?_⟩
      rw [own]
      omega
  · intro first listed second listed' inner other known known' same
    rw [List.mem_append, List.mem_singleton] at listed listed'
    rcases listed with old | rfl <;> rcases listed' with old' | rfl
    · rw [earlier first old, earlier second old'] at same
      exact assembled.apart first old second old' inner other known known' same
    · have before := assembled.taskAt_lt old known
      rw [earlier first old, own] at same
      omega
    · have before := assembled.taskAt_lt old' known'
      rw [earlier second old', own] at same
      omega
    · rw [own, own] at same
      exact ⟨rfl, by omega⟩

end Assembled

theorem assembled_assemble {chosen : List Nat} (distinct : chosen.Nodup)
    (known : ∀ candidate ∈ chosen, candidate < problem.candidates.length) :
    problem.Assembled chosen (problem.assemble chosen).1 (problem.assemble chosen).2 := by
  induction chosen using List.reverseRecOn with
  | nil => exact .nil
  | append_singleton chosen place ih =>
    obtain ⟨before, -, apart⟩ := List.nodup_append.mp distinct
    have held := ih before fun other listed => known other (List.mem_append_left _ listed)
    have within := known place (List.mem_append_right _ List.mem_cons_self)
    have found := List.getElem?_eq_getElem within
    have fresh : place ∉ chosen := fun listed =>
      apart place listed place List.mem_cons_self rfl
    have next := held.push found fresh
    have same : problem.assemble (chosen ++ [place]) =
        ((problem.assemble chosen).1 ++
          tasksOf problem.candidates[place] (problem.assemble chosen).1.length,
        (problem.assemble chosen).2 ++ [(place, (problem.assemble chosen).1.length)]) := by
      rw [assemble, List.foldl_append, List.foldl_cons, List.foldl_nil, ← assemble, found]
    rw [same]
    exact next

theorem taskSlot_ok {chosen : List Nat} {tasks : List (Task α)} {numbers : TaskNumbers}
    (assembled : problem.Assembled chosen tasks numbers) {slot : CandidateSlot}
    (listed : slot.candidate ∈ chosen) : taskSlot numbers slot = .ok (slotAt numbers slot) := by
  obtain ⟨start, found⟩ := Option.isSome_iff_exists.mp
    ((assembled.numbered slot.candidate).mpr listed)
  rw [taskSlot, slotAt, taskAt, found]
  rfl

end CrossPlan.Problem
