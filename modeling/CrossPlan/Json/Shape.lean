import CrossPlan.Json.Value
import CrossPlan.Quantity

/-!
# Structures in JSON

A structure is read from an object by the names of its fields, or from a list by their positions.
Unknown fields are passed over; a field that is named twice is a fault.
-/

set_option autoImplicit false

namespace CrossPlan.Json

/-- Where a field of a structure was found. -/
inductive Entry where
  | present (value : Json)
  /-- no field of this name in an object -/
  | absent
  /-- a list that ended before the field -/
  | beyond

/-- The entries of the named fields, in their order. -/
def shape? (names : List String) : Json → Option (List Entry)
  | .object fields =>
    names.mapM fun name =>
      match fields.filter fun field => field.1 == name with
      | [] => some .absent
      | [field] => some (.present field.2)
      | _ => none
  | .list items =>
    if names.length < items.length then none
    else some (items.map .present ++ List.replicate (names.length - items.length) .beyond)
  | _ => none

namespace Entry

variable {β : Type}

def required (read : Json → Option β) : Entry → Option β
  | .present value => read value
  | _ => none

/-- A field that may be missing; then it has a value of its own. -/
def orElse (standard : β) (read : Json → Option β) : Entry → Option β
  | .present value => read value
  | _ => some standard

/-- A field that may be `null` or unnamed. -/
def optional (read : Json → Option β) : Entry → Option (Option β)
  | .present .null => some none
  | .present value => (read value).map some
  | .absent => some none
  | .beyond => none

/-- A field that may be `null` or missing. -/
def optionalOrElse (standard : Option β) (read : Json → Option β) : Entry → Option (Option β)
  | .present .null => some none
  | .present value => (read value).map some
  | _ => some standard

end Entry

def word? : Json → Option Nat
  | .int n => if 0 ≤ n ∧ n < Count.span then some n.toNat else none
  | _ => none

def signedWord? : Json → Option Int
  | .int n => if -(Count.half : Int) ≤ n ∧ n < Count.half then some n else none
  | _ => none

def double? : Json → Option Float
  | .int n => some (Float.ofInt n)
  | .float x => some x
  | _ => none

def text? : Json → Option String
  | .text s => some s
  | _ => none

def bool? : Json → Option Bool
  | .bool b => some b
  | _ => none

def list? : Json → Option (List Json)
  | .list items => some items
  | _ => none

def listOf? {β : Type} (read : Json → Option β) (value : Json) : Option (List β) :=
  value.list?.bind fun items => items.mapM read

/-- The name of a case and the rest of the value: a field of the given name in an object, or the
first item of a list. -/
def tagged? (tag : String) : Json → Option (String × Json)
  | .object fields =>
    match fields.filter fun field => field.1 == tag with
    | [(_, .text name)] => some (name, .object (fields.filter fun field => field.1 != tag))
    | _ => none
  | .list (.text name :: rest) => some (name, .list rest)
  | _ => none

/-- One of several names, alone or as the only field of an object around `null`. -/
def choice? {β : Type} (ofName : String → Option β) : Json → Option β
  | .text name => ofName name
  | .object [(name, .null)] => ofName name
  | _ => none

end CrossPlan.Json
