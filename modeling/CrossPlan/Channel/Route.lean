import CrossPlan.Platform
import CrossPlan.Quantity

/-!
# Routes between forms

Rows leave a producer in one of its forms and reach each consumer in a form that it accepts, through
a chain of conversions.  The cheapest chain is taken; of equally cheap ones the shortest.  It is
found by settling forms in the order in which they are reached from the producer's.
-/

set_option autoImplicit false

namespace CrossPlan

structure Route (α : Type) where
  steps : List Conversion
  cost : α

/-- The form in which a producer hands rows over, and the route to each consumer. -/
structure GroupRoutes (α : Type) where
  form : Form
  routes : List (Route α)
  cost : α

/-- Whether a chain of conversions leads from a form to another. -/
def Conversion.chains : List Conversion → (source target : Form) → Bool
  | [], source, target => source == target
  | step :: rest, source, target => step.source == source && chains rest step.target target

/-- The form in which rows arrive after a chain of conversions. -/
def Conversion.endOf (source : Form) (steps : List Conversion) : Form :=
  steps.foldl (fun _ step => step.target) source

variable {α : Type} [Quantity α]

open Quantity

namespace Route

/-- Whether one route is taken in place of another one before it. -/
def better (a b : Route α) : Bool :=
  match rank a.cost b.cost with
  | .lt => true
  | .eq => a.steps.length < b.steps.length
  | .gt => false

/-- Whether one route is put in the place of another one that leads to the same form. -/
def improves (a b : Route α) : Bool :=
  lt a.cost b.cost || (eq a.cost b.cost && a.steps.length < b.steps.length)

/-- The route of a form to itself. -/
def start : Route α := ⟨[], zero⟩

/-- A route with one more step.  A conversion with negative cost is free. -/
def extend (stepCost : Conversion → α) (route : Route α) (step : Conversion) : Route α :=
  ⟨route.steps ++ [step], route.cost + larger (stepCost step) zero⟩

end Route

/-- The first of the best elements of a list. -/
def bestBy {β : Type} (better : β → β → Bool) : List β → Option β
  | [] => none
  | first :: rest =>
    some (rest.foldl (fun best next => if better next best then next else best) first)

/-- Enters a route to a form, unless the route that is known is as good. -/
def enter (form : Form) (route : Route α) : List (Form × Route α) → List (Form × Route α)
  | [] => [(form, route)]
  | entry :: rest =>
    if entry.1 = form then (form, if route.improves entry.2 then route else entry.2) :: rest
    else entry :: enter form route rest

/-- Goes on from a route by a step, unless that leads back to a settled form. -/
def Route.follow (stepCost : Conversion → α) (settled : List Form) (route : Route α)
    (known : List (Form × Route α)) (step : Conversion) : List (Form × Route α) :=
  if settled.contains step.target then known
  else enter step.target (route.extend stepCost step) known

/-- The form that is nearest among those that are known and not settled, with the route to it. -/
def nearest? (settled : List Form) (known : List (Form × Route α)) : Option (Form × Route α) :=
  bestBy (fun a b => a.2.better b.2) (known.filter fun entry => !settled.contains entry.1)

/-- Settles one form after the other, the nearest first, up to one that is accepted.  Each turn
settles another form. -/
def settle (accepted : List Form) (stepCost : Conversion → α) :
    (turns : Nat) → (settled : List Form) → (known : List (Form × Route α)) → Option (Route α)
  | 0, _, _ => none
  | turns + 1, settled, known =>
    match nearest? settled known with
    | none => none
    | some (form, route) =>
      if accepted.contains form then some route
      else
        let settled := form :: settled
        settle accepted stepCost turns settled
          ((Conversion.leaving form).foldl (route.follow stepCost settled) known)

/-- The cheapest route from a form to an accepted one. -/
def cheapestRoute (source : Form) (accepted : List Form) (stepCost : Conversion → α) :
    Option (Route α) :=
  settle accepted stepCost Form.all.length [] [(source, .start)]

/-- The route from a form to a consumer, or the place of the consumer where there is none. -/
def routeTo (stepCost : Conversion → α) (source : Form) (consumer : List Form × Nat) :
    Except Nat (Route α) :=
  match cheapestRoute source consumer.1 stepCost with
  | some route => .ok route
  | none => .error consumer.2

/-- The place of the first consumer that a form does not reach, or the routes to all of them. -/
def routesFrom (stepCost : Conversion → α) (source : Form) (consumers : List (List Form)) :
    Except Nat (List (Route α)) :=
  consumers.zipIdx.mapM (routeTo stepCost source)

namespace GroupRoutes

def steps (group : GroupRoutes α) : Nat :=
  Count.total (group.routes.map fun route => route.steps.length)

def better (a b : GroupRoutes α) : Bool :=
  lt a.cost b.cost || (eq a.cost b.cost && a.steps < b.steps)

end GroupRoutes

/-- Tries one form of a producer after the other, keeping the best so far and the consumer that was
missed last. -/
def tryForms (stepCost : Conversion → α) (consumers : List (List Form)) :
    List Form → Option (GroupRoutes α) → Nat → Except Nat (GroupRoutes α)
  | [], some best, _ => .ok best
  | [], none, missed => .error missed
  | form :: rest, best, missed =>
    match routesFrom stepCost form consumers with
    | .error place => tryForms stepCost consumers rest best place
    | .ok routes =>
      let group : GroupRoutes α := ⟨form, routes, sum (routes.map (·.cost))⟩
      match best with
      | some held =>
        tryForms stepCost consumers rest (some (if group.better held then group else held)) missed
      | none => tryForms stepCost consumers rest (some group) missed

/-- The form of a producer from which all consumers are reached at least cost, and the routes; or
the place of a consumer that is not reached. -/
def resolveGroup (produced : List Form) (consumers : List (List Form))
    (stepCost : Conversion → α) : Except Nat (GroupRoutes α) :=
  tryForms stepCost consumers produced none 0

/-- The forms accepted on a slot; rows of a broadcast have to be read more than once. -/
def acceptedOn (supported : List Form) (broadcast : Bool) : List Form :=
  if broadcast then supported.filter Form.reusable else supported

end CrossPlan
