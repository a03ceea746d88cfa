import CrossPlan.Decimal.Layout
import CrossPlan.Digest.Fingerprint
import CrossPlan.Execution.Plan

/-!
# Execution plans as text

What an execution plan looks like to a reader, and its structure as JSON.  The structure leaves out
costs and the round of compilation, so that plans of the same shape have the same fingerprint.
-/

set_option autoImplicit false

namespace CrossPlan

def epochLabel (epoch : Nat) : String := "epoch#" ++ toString epoch

def TaskSlot.toJson (slot : TaskSlot) : Json :=
  .object [("task", .ofNat slot.task), ("slot", .ofNat slot.slot)]

namespace Task

variable {α : Type}

def shape (task : Task α) : Json :=
  .object [("kind", .text task.operator.kind), ("platform", .text task.operator.platform.name),
    ("name", .text task.operator.name), ("origin", .list (task.origin.map .ofNat))]

def line (task : Task Float) : String :=
  let origin := ", ".intercalate (task.origin.map fun id => "#" ++ toString id)
  let estimate := match task.estimate with
    | some estimate =>
      "  est " ++ Decimal.fixed 3 (estimate.prepare.time.expected + estimate.main.time.expected)
        ++ "ms (confidence " ++ Decimal.fixed 2 estimate.main.confidence ++ ")"
    | none => ""
  "  task" ++ toString task.id ++ " " ++ task.operator.platform.name ++ "/" ++ task.operator.kind
    ++ " '" ++ task.operator.name ++ "' <- [" ++ origin ++ "] via " ++ task.rule ++ estimate

end Task

namespace Junction

variable {α : Type}

def shape (junction : Junction α) : Json :=
  .object [("producer", junction.producer.toJson), ("descriptor", .text junction.form.title),
    ("targets", .list (junction.targets.map fun target =>
      .list [target.consumer.toJson, .list (target.conversions.map fun step => .text step.key)]))]

def lines (junction : Junction α) : List String :=
  junction.targets.map fun target =>
    let via := if target.conversions.isEmpty then ""
      else " via " ++ " > ".intercalate (target.conversions.map Conversion.key)
    "  " ++ junction.producer.label ++ " -> " ++ target.consumer.label ++ " [" ++ junction.form.name
      ++ "]" ++ via ++ (if junction.duplicates then " (dup)" else "")

end Junction

namespace ExecutionPlan

variable {α : Type}

def shape (plan : ExecutionPlan α) : Json :=
  .object [("tasks", .list (plan.tasks.map Task.shape)),
    ("junctions", .list (plan.junctions.map Junction.shape))]

def fingerprint (plan : ExecutionPlan α) : Fingerprint :=
  Fingerprint.ofJson .executionPlan plan.shape

/-- The lines that show a plan: a head, the tasks in their order, the junctions. -/
def lines (plan : ExecutionPlan Float) : List String :=
  let head := "execution plan (" ++ epochLabel plan.epoch ++ ", cost "
    ++ Decimal.fixed 3 plan.score.cost ++ ", " ++ toString plan.score.crossLinks
    ++ " cross-platform link(s))"
  head :: plan.order.filterMap (fun id => plan.tasks[id]?.map Task.line)
    ++ plan.junctions.flatMap Junction.lines

end ExecutionPlan

end CrossPlan
