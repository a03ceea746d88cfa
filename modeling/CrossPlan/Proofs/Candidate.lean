import CrossPlan.Candidate
import CrossPlan.Proofs.Pattern.Matching

/-!
# Where candidates come from

Each candidate is the replacement that a rule of the registry makes of one match of its pattern, and
stands at the place that it is numbered with.  It covers operators of the plan, each once.
-/

set_option autoImplicit false

namespace CrossPlan

open Sequence

variable {α : Type}

structure Candidate.Derived (registry : RuleRegistry α) (plan : Plan) (epoch : Nat)
    (candidate : Candidate α) (rule : Rule α) (operators : List Operator) : Prop where
  registered : registry.rules[candidate.rule]? = some rule
  platform : candidate.platform = rule.platform
  found : candidate.matched ∈ rule.pattern.findMatches plan
  bound : List.Forall₂ (fun id operator => plan.operators[id]? = some operator)
    candidate.matched.nodes operators
  made : rule.factory operators epoch = .ok candidate.replacement
  inputs : candidate.replacement.inputs.length = candidate.matched.inputs.length
  outputs : candidate.replacement.outputs.length = candidate.matched.outputs.length
  forward : candidate.replacement.isForward = true

theorem Plan.get_ok {plan : Plan} {id : Nat} {operator : Operator} :
    plan.get id = .ok operator ↔ plan.operators[id]? = some operator := by
  unfold Plan.get
  split <;> simp_all

theorem Rule.replace_ok {rule : Rule α} {operators : List Operator} {inputs outputs epoch : Nat}
    {replacement : Replacement α}
    (success : rule.replace operators inputs outputs epoch = .ok replacement) :
    rule.factory operators epoch = .ok replacement ∧ replacement.inputs.length = inputs ∧
      replacement.outputs.length = outputs ∧ replacement.isForward = true := by
  simp only [replace] at success
  obtain ⟨made, factory, success⟩ := bind_ok_iff.mp success
  split at success
  · cases success
  next inputs =>
  split at success
  · cases success
  next outputs =>
  split at success
  · cases success
  next forward =>
  cases success
  exact ⟨mapError_ok_iff.mp factory, not_not.mp inputs, not_not.mp outputs, by simpa using forward⟩

namespace RuleRegistry

variable [Quantity α]

theorem candidate_ok {estimator : Estimator α} {weights : CostWeights α} {plan : Plan}
    {known : PlanStatistics} {epoch place : Nat} {rule : Rule α} {found : SubplanMatch}
    {candidate : Candidate α}
    (success : RuleRegistry.candidate estimator weights plan known epoch place rule found =
      .ok candidate) :
    candidate.rule = place ∧ candidate.platform = rule.platform ∧ candidate.matched = found ∧
      ∃ operators, found.nodes.mapM plan.get = .ok operators ∧
        rule.replace operators found.inputs.length found.outputs.length epoch =
          .ok candidate.replacement := by
  obtain ⟨operators, bound, success⟩ := bind_ok_iff.mp success
  obtain ⟨replacement, made, success⟩ := bind_ok_iff.mp success
  cases success
  exact ⟨rfl, rfl, rfl, operators, mapError_ok_iff.mp bound, made⟩

theorem derived_of_mem {registry : RuleRegistry α} {estimator : Estimator α}
    {weights : CostWeights α} {plan : Plan} {known : PlanStatistics} {epoch : Nat}
    {candidates : List (Candidate α)}
    (success : registry.candidates estimator weights plan known epoch = .ok candidates)
    {candidate : Candidate α} (present : candidate ∈ candidates) :
    ∃ rule operators, candidate.Derived registry plan epoch rule operators := by
  obtain ⟨found, matched, success⟩ := bind_ok_iff.mp success
  cases success
  simp only [Candidate.arrange, List.mem_map] at present
  obtain ⟨⟨original, place⟩, present, rfl⟩ := present
  have listed := List.mem_of_getElem? (List.mem_zipIdx_iff_getElem?.mp present)
  rw [List.mem_mergeSort, List.mem_flatten] at listed
  obtain ⟨made, among, listed⟩ := listed
  obtain ⟨entry, indexed, all⟩ := mem_right (mapM_ok_iff.mp matched) among
  obtain ⟨occurrence, here, single⟩ := mem_right (mapM_ok_iff.mp all) listed
  obtain ⟨number, platform, rfl, operators, bound, replaced⟩ := candidate_ok single
  obtain ⟨factory, inputs, outputs, forward⟩ := Rule.replace_ok replaced
  refine ⟨entry.1, operators, ?_, platform, here, ?_, factory, inputs, outputs, forward⟩
  · rw [number]
    exact List.mem_zipIdx_iff_getElem?.mp indexed
  · exact (mapM_ok_iff.mp bound).imp fun _ _ => Plan.get_ok.mp

theorem id_of_getElem? {registry : RuleRegistry α} {estimator : Estimator α}
    {weights : CostWeights α} {plan : Plan} {known : PlanStatistics} {epoch : Nat}
    {candidates : List (Candidate α)}
    (success : registry.candidates estimator weights plan known epoch = .ok candidates)
    {place : Nat} {candidate : Candidate α} (found : candidates[place]? = some candidate) :
    candidate.id = place := by
  obtain ⟨_, _, success⟩ := bind_ok_iff.mp success
  cases success
  simp only [Candidate.arrange, List.getElem?_map, List.getElem?_zipIdx, Option.map_eq_some_iff]
    at found
  obtain ⟨_, ⟨_, _, rfl⟩, rfl⟩ := found
  exact Nat.zero_add place

end RuleRegistry

namespace Candidate.Derived

variable {registry : RuleRegistry α} {plan : Plan} {epoch : Nat} {candidate : Candidate α}
  {rule : Rule α} {operators : List Operator}

theorem embeds (derived : candidate.Derived registry plan epoch rule operators)
    (accepted : rule.pattern.Accepted) (formed : plan.WellFormed) :
    ∃ image, rule.pattern.Embeds plan image ∧
      candidate.matched = rule.pattern.occurrence plan image :=
  (Pattern.mem_findMatches accepted.registered formed).mp derived.found

end Candidate.Derived

namespace Pattern.Embeds

variable {pattern : Pattern} {plan : Plan} {image : Nat → Nat}

theorem covered_perm : (pattern.occurrence plan image).covered.Perm (pattern.images image) :=
  List.mergeSort_perm _ _

theorem mem_covered {id : Nat} :
    id ∈ (pattern.occurrence plan image).covered ↔ pattern.Matched image id :=
  covered_perm.mem_iff.trans mem_images

theorem nodup_covered (embeds : pattern.Embeds plan image) :
    (pattern.occurrence plan image).covered.Nodup := by
  refine covered_perm.nodup_iff.mpr (List.nodup_range.map_on ?_)
  intro a first b second same
  exact embeds.injective a b (List.mem_range.mp first) (List.mem_range.mp second) same

theorem covered_ne_nil (registered : pattern.Registered) :
    (pattern.occurrence plan image).covered ≠ [] := by
  intro empty
  have permuted : (pattern.occurrence plan image).covered.Perm (pattern.images image) :=
    covered_perm
  have length := permuted.length_eq
  rw [empty] at length
  simp only [images, List.length_map, List.length_range] at length
  exact registered.nonempty (List.length_eq_zero_iff.mp length.symm)

theorem matched_lt (embeds : pattern.Embeds plan image) {id : Nat}
    (matched : pattern.Matched image id) : id < plan.size := by
  obtain ⟨node, within, rfl⟩ := matched
  obtain ⟨_, found, _⟩ := embeds.fits node _ (List.getElem?_eq_getElem within)
  exact (List.getElem?_eq_some_iff.mp found).1

end Pattern.Embeds

end CrossPlan
