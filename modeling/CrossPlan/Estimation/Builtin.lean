import CrossPlan.Estimation.Specification
import CrossPlan.Platform

/-!
# Costs of the built-in operators

Operators in the local process start at once and take a time for each row.  On the distributed
engine each operator pays for its start, and rows are cheaper.
-/

set_option autoImplicit false

namespace CrossPlan.Specifications

variable {α : Type} [Quantity α]

open Quantity

def starts (fixedMs : α) : CostModel α := .ofTimes fixedMs zero

def flows (perRowMs : α) : CostModel α := .ofTimes zero perRowMs

/-- A model of a time for each row where a part of the bytes crosses the network. -/
def shares (perRowMs : α) : CostModel α := .linear zero perRowMs zero zero (ofDecimal 5 2)

/-- For each operator of the local process the models of its two phases. -/
def inProcess : List (String × CostModel α × CostModel α) :=
  [("collection_source", starts (ofDecimal 1 2),
      .linear zero (ofDecimal 2 4) zero (ofNat 64) zero),
    ("text_file_source", starts (ofDecimal 2 1),
      .linear zero (ofDecimal 2 3) (ofDecimal 1 2) (ofNat 96) zero),
    ("filter", starts (ofDecimal 2 2), flows (ofDecimal 2 3)),
    ("map", starts (ofDecimal 2 2), flows (ofDecimal 15 4)),
    ("project", starts (ofDecimal 2 2), flows (ofDecimal 1 3)),
    ("union", starts (ofDecimal 1 2), flows (ofDecimal 2 4)),
    ("sink", starts (ofDecimal 5 2), .linear zero (ofDecimal 3 3) (ofDecimal 1 2) zero zero)]

/-- For each operator of the distributed engine the models of its two phases. -/
def distributed : List (String × CostModel α × CostModel α) :=
  [("collection_source", starts (ofNat 4), .linear zero (ofDecimal 2 4) zero (ofNat 64) zero),
    ("text_file_source", starts (ofNat 5),
      .linear zero (ofDecimal 5 4) (ofDecimal 3 3) (ofNat 96) zero),
    ("filter", starts (ofNat 5), shares (ofDecimal 5 4)),
    ("map", starts (ofNat 5), shares (ofDecimal 4 4)),
    ("project", starts (ofNat 5), shares (ofDecimal 3 4)),
    ("filter_project", starts (ofNat 5), shares (ofDecimal 6 4)),
    ("union", starts (ofNat 5), flows (ofDecimal 1 4)),
    ("sink", starts (ofNat 5), .linear zero (ofDecimal 1 3) (ofDecimal 4 3) zero zero)]

def ofConversion : Conversion → CostModel α
  | .collect => .linear (ofDecimal 1 2) (ofDecimal 5 4) zero (ofNat 64) zero
  | .stream => .ofTimes (ofDecimal 1 2) (ofDecimal 1 4)
  | .parallelize | .gather => .linear one (ofDecimal 1 3) zero zero one

/-- The models of the phases of the operators of a platform, under their keys. -/
def ofPlatform (platform : Platform) (models : List (String × CostModel α × CostModel α)) :
    List (String × CostModel α) :=
  models.flatMap fun (operator, prepare, main) =>
    [(platform.costKey operator "prepare", prepare), (platform.costKey operator "main", main)]

def builtin : Specifications α :=
  .ofList (ofPlatform .inProcess inProcess ++ ofPlatform .distributed distributed
    ++ Conversion.all.map fun conversion => (conversion.key, ofConversion conversion))

end CrossPlan.Specifications
