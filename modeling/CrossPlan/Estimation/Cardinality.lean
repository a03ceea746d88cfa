import CrossPlan.Configuration
import CrossPlan.Plan.Validity
import CrossPlan.Table

/-!
# How many rows to expect

What is known of the rows that leave each operator follows from the sources downwards.  A collection
is counted, a text source is known by a hint, and an operator behind an unknown input stays unknown.
-/

set_option autoImplicit false

namespace CrossPlan

structure Statistics where
  cardinality : Option Nat
  /-- the bytes of a row, on average -/
  recordBytes : Option Nat
  deriving DecidableEq, Repr, Inhabited

def Statistics.unknown : Statistics := ⟨none, none⟩

/-- Row counts of sources, under their address or the name of the operator. -/
abbrev Hints := Table Nat

/-- The share of rows that a filter is taken to keep, judged by the text of its predicate. -/
def selectivity {α : Type} [Quantity α] (predicate : String) : α :=
  let s := predicate.toList
  let holds (part : String) : Bool := Text.occurs part.toList s
  if holds " in @" then Quantity.ofDecimal 5 1
  else if holds "!=" then Quantity.ofDecimal 9 1
  else if holds "==" then Quantity.ofDecimal 1 1
  else if holds "<" || holds ">" then Quantity.ofDecimal 33 2
  else Quantity.ofDecimal 5 1

/-- The average size of rows, at least one byte; no rows have the given size. -/
def averageBytes (rows : List Record) (otherwise : Nat) : Nat :=
  if rows.isEmpty then otherwise
  else max 1 (Count.total (rows.map Record.bytes) / rows.length)

/-- What is known of the output of each operator, by number. -/
structure PlanStatistics where
  outputs : List Statistics

namespace PlanStatistics

def output (statistics : PlanStatistics) (operator : Nat) : Statistics :=
  statistics.outputs[operator]?.getD .unknown

/-- What is known of the inputs of an operator in the order of its slots, broadcasts included. -/
def inputs (statistics : PlanStatistics) (plan : Plan) (operator : Nat) : List Statistics :=
  (plan.incoming operator).map fun edge => statistics.output edge.source.operator

def mainInputs (statistics : PlanStatistics) (plan : Plan) (operator : Operator) :
    List Statistics :=
  let main := (plan.incoming operator.id).filter fun edge =>
    !((operator.inputs[edge.target.slot]?.map (·.broadcast)).getD false)
  main.map fun edge => statistics.output edge.source.operator

end PlanStatistics

/-- Counts are added in words of 64 bits. -/
def addCounts (counts : List Nat) : Nat := Count.total counts % Count.span

/-- What is known of the output of an operator, given what is known of its main inputs. -/
def Action.statistics {α : Type} [Quantity α] (action : Action) (name : String)
    (inputs : List Statistics) (hints : Hints) (config : EstimatorConfig α) : Statistics :=
  let first := inputs.head?.getD .unknown
  match action with
  | .collectionSource rows =>
    ⟨some rows.length, some (averageBytes rows config.defaultRecordBytes)⟩
  | .textSource url => ⟨(hints.get? url).or (hints.get? name), none⟩
  | .filter predicate =>
    let kept (n : Nat) : Nat :=
      Quantity.count ((Quantity.ofNat n : α) * selectivity predicate)
    { first with cardinality := first.cardinality.map kept }
  | .map _ | .project _ | .sink _ => first
  | .union => ⟨(inputs.mapM Statistics.cardinality).map addCounts, first.recordBytes⟩

def PlanStatistics.fill {α : Type} [Quantity α] (plan : Plan) (hints : Hints)
    (config : EstimatorConfig α) (order : List Nat) (statistics : PlanStatistics) :
    PlanStatistics :=
  order.foldl (fun known id =>
    match plan.operators[id]? with
    | none => known
    | some operator =>
      let output := operator.action.statistics operator.name (known.mainInputs plan operator)
        hints config
      ⟨known.outputs.set id output⟩) statistics

/-- What is known of the output of every operator of a plan. -/
def Plan.statistics {α : Type} [Quantity α] (plan : Plan) (hints : Hints)
    (config : EstimatorConfig α) : Except PlanError PlanStatistics := do
  let order ← plan.order
  pure (.fill plan hints config order ⟨List.replicate plan.size .unknown⟩)

end CrossPlan
