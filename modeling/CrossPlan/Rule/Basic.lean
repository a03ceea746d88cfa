import CrossPlan.Bound.Basic
import CrossPlan.Pattern.Matching

/-!
# Mapping rules

A rule replaces the operators of a match by bound operators of a platform.  A replacement joins on
to the plan at the boundaries of the match, one slot for each, and is refused where it does not fit.
-/

set_option autoImplicit false

namespace CrossPlan

/-- Bound operators in place of a match.  Slots name operators by their places. -/
structure Replacement (α : Type) where
  operators : List (BoundOperator α)
  /-- internal connections, which lead forward -/
  links : List Edge
  /-- the slot that each input boundary feeds -/
  inputs : List SlotRef
  /-- the slot that each output boundary reads -/
  outputs : List SlotRef

namespace Replacement

variable {α : Type}

/-- One operator, whose slots are the boundaries. -/
def single (operator : BoundOperator α) : Replacement α :=
  ⟨[operator], [], Pattern.slotsOf operator.inputs, Pattern.slotsOf operator.outputs⟩

/-- The platforms of the operators, each once, in their order. -/
def platforms (replacement : Replacement α) : List Platform :=
  Platform.all.filter fun platform => replacement.operators.any (·.platform == platform)

/-- Whether links lead forward and all slots belong to operators of the replacement. -/
def isForward (replacement : Replacement α) : Bool :=
  let n := replacement.operators.length
  replacement.links.all (fun link =>
      link.source.operator < link.target.operator && link.target.operator < n)
    && (replacement.inputs ++ replacement.outputs).all fun slot => slot.operator < n

end Replacement

inductive MappingError where
  | replacement (rule : String) (operators : List String) (reason : String)
  | arityMismatch (rule : String) (side : Side) (expected got : Nat)
  | plan (error : PlanError)
  deriving DecidableEq, Repr

def MappingError.message : MappingError → String
  | .replacement rule operators reason =>
    "rule '" ++ rule ++ "' could not build a replacement for " ++ ", ".intercalate operators ++ ": "
      ++ reason
  | .arityMismatch rule side expected got =>
    "rule '" ++ rule ++ "': replacement exposes " ++ toString got ++ " " ++ side.name
      ++ " boundaries, match has " ++ toString expected
  | .plan error => error.message

/-- Makes the replacement of matched operators in a round of compilation. -/
abbrev ReplacementFactory (α : Type) :=
  List Operator → (epoch : Nat) → Except String (Replacement α)

/-- A factory for patterns of one node. -/
def ReplacementFactory.ofSingle {α : Type}
    (bind : Operator → (epoch : Nat) → Except String (BoundOperator α)) : ReplacementFactory α :=
  fun operators epoch =>
    match operators with
    | [operator] => (bind operator epoch).map .single
    | _ => .error ("expected one matched operator, got " ++ toString operators.length)

structure Rule (α : Type) where
  name : String
  pattern : Pattern
  factory : ReplacementFactory α
  platform : Platform

namespace Rule

variable {α : Type}

/-- The replacement of matched operators, if it fits the numbers of boundaries. -/
def replace (rule : Rule α) (operators : List Operator) (inputs outputs epoch : Nat) :
    Except MappingError (Replacement α) := do
  let fault (reason : String) : MappingError :=
    .replacement rule.name (operators.map Operator.label) reason
  let replacement ← (rule.factory operators epoch).mapError fault
  if replacement.inputs.length ≠ inputs then
    throw (.arityMismatch rule.name .input inputs replacement.inputs.length)
  if replacement.outputs.length ≠ outputs then
    throw (.arityMismatch rule.name .output outputs replacement.outputs.length)
  if !replacement.isForward then
    throw (fault "replacement links must point forward to existing operators")
  pure replacement

/-- Whether a rule can stand behind others: under a new name and on a platform that has all its
kinds. -/
def check (earlier : List (Rule α)) (rule : Rule α) : Except PatternError Unit :=
  if earlier.any (·.name == rule.name) then .error (.duplicateRule rule.name)
  else match rule.pattern.kinds.find? fun kind => !rule.platform.supports kind with
    | some kind => .error (.unsupportedKind rule.name rule.platform kind)
    | none => .ok ()

end Rule

structure RuleRegistry (α : Type) where
  rules : List (Rule α)

/-- The registry of rules in their order, unless one of them is refused. -/
def RuleRegistry.ofRules {α : Type} (rules : List (Rule α)) :
    Except PatternError (RuleRegistry α) := do
  rules.zipIdx.forM fun (rule, place) => rule.check (rules.take place)
  pure ⟨rules⟩

end CrossPlan
