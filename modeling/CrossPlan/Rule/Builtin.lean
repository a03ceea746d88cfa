import CrossPlan.Bound.Builtin
import CrossPlan.Rule.Basic

/-!
# The built-in rules

For each platform and each kind there is a rule that binds one operator.  On the distributed engine
a filter and a projection behind it can also be done in one pass.
-/

set_option autoImplicit false

namespace CrossPlan

variable {α : Type}

/-- Binds one operator of a kind; only filters may have broadcasts. -/
def kindRule (platform : Platform) (kind : Kind) : Rule α :=
  { name := platform.name ++ "." ++ kind.name
    pattern := .singleton { OperatorPattern.ofKind kind with allowsBroadcasts := kind == .filter }
    factory := .ofSingle fun operator epoch =>
      if operator.kind = kind then (operator.bind platform epoch).mapError BindError.message
      else .error (BindError.wrongKind kind.name operator.kind.name).message
    platform }

/-- A filter whose rows go to a projection and nowhere else. -/
def filterProjectPattern : Pattern :=
  { name := "filter_project"
    nodes := [.ofKind .filter, .ofKind .project]
    edges := [⟨⟨0, 0⟩, ⟨1, 0⟩⟩]
    inputs := [⟨0, 0⟩]
    outputs := [⟨1, 0⟩]
    traversal := [⟨0, none⟩, ⟨1, some 0⟩] }

/-- A filter and a projection in one operator, which is named for both. -/
def fuse : ReplacementFactory α
  | [filter, project], epoch =>
    match filter.action, project.action with
    | .filter predicate, .project columns =>
      match fusedAction predicate columns with
      | .ok action =>
        .ok (.single (action.toOperator (filter.name ++ "+" ++ project.name) .distributed epoch))
      | .error error => .error error.message
    | _, _ => .error "fusion applied to operators of the wrong kind"
  | operators, _ =>
    .error ("expected filter and project, got " ++ toString operators.length ++ " operator(s)")

def filterProjectRule : Rule α :=
  ⟨"distributed.filter_project", filterProjectPattern, fuse, .distributed⟩

def builtinRules : List (Rule α) :=
  Platform.all.flatMap (fun platform => platform.kinds.map (kindRule platform))
    ++ [filterProjectRule]

def RuleRegistry.builtin : RuleRegistry α := ⟨builtinRules⟩

end CrossPlan
