import CrossPlan.Proofs.Pattern.Registration
import CrossPlan.Proofs.Sequence
import CrossPlan.Rule.Builtin

/-!
# What the built-in rules make

A built-in rule makes a single bound operator, of one operator of the plan or of a filter and the
projection behind it.
-/

set_option autoImplicit false

namespace CrossPlan

open Sequence

variable {α : Type}

theorem kindRule_ok {platform : Platform} {kind : Kind} {operators : List Operator} {epoch : Nat}
    {replacement : Replacement α}
    (made : (kindRule platform kind).factory operators epoch = .ok replacement) :
    ∃ operator action, operators = [operator] ∧ operator.kind = kind ∧
      operator.bound = .ok action ∧
      replacement = .single (action.toOperator operator.name platform epoch) := by
  match operators with
  | [] => cases made
  | _ :: _ :: _ => cases made
  | [operator] =>
    simp only [kindRule, ReplacementFactory.ofSingle] at made
    split at made
    · next same =>
      cases bound : operator.bound with
      | error error =>
        simp [Operator.bind, bound, bind, Except.bind, Except.mapError, Except.map] at made
      | ok action =>
        rw [Operator.bind, bound] at made
        cases made
        exact ⟨operator, action, rfl, same, bound, rfl⟩
    · cases made

theorem fusedAction_ok {text : String} {columns : List String} {action : BoundAction}
    (success : fusedAction text columns = .ok action) :
    ∃ predicate, Predicate.read text = .ok predicate ∧ predicate.broadcasts = [] ∧
      action = .filterProject predicate columns := by
  obtain ⟨predicate, parsed, success⟩ := bind_ok_iff.mp success
  split at success
  · cases success
  · next none =>
    cases success
    exact ⟨predicate, parsed, none, rfl⟩

theorem fuse_ok {operators : List Operator} {epoch : Nat} {replacement : Replacement α}
    (made : fuse operators epoch = .ok replacement) :
    ∃ filter project text columns predicate, operators = [filter, project] ∧
      filter.action = .filter text ∧ project.action = .project columns ∧
      Predicate.read text = .ok predicate ∧ predicate.broadcasts = [] ∧
      replacement = .single ((BoundAction.filterProject predicate columns).toOperator
        (filter.name ++ "+" ++ project.name) .distributed epoch) := by
  unfold fuse at made
  split at made
  · next filter project =>
    split at made
    · next text columns filtered projected =>
      split at made
      · next action success =>
        obtain ⟨predicate, parsed, none, rfl⟩ := fusedAction_ok success
        cases made
        exact ⟨filter, project, text, columns, predicate, rfl, filtered, projected, parsed, none,
          rfl⟩
      · cases made
    · cases made
  · cases made

theorem single_of_builtin {rule : Rule α} (listed : rule ∈ builtinRules)
    {operators : List Operator} {epoch : Nat} {replacement : Replacement α}
    (made : rule.factory operators epoch = .ok replacement) :
    ∃ operator, replacement = .single operator := by
  rcases mem_builtinRules.mp listed with ⟨platform, kind, rfl⟩ | rfl
  · obtain ⟨_, _, -, -, -, rfl⟩ := kindRule_ok made
    exact ⟨_, rfl⟩
  · obtain ⟨_, _, _, _, _, -, -, -, -, -, rfl⟩ := fuse_ok made
    exact ⟨_, rfl⟩

end CrossPlan
