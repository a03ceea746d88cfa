/-!
# JSON values

Fields of an object are kept in the order in which they were met.  `canonical` brings them into
ascending order and keeps the last of several fields of one name.
-/

set_option autoImplicit false

namespace CrossPlan

inductive Json where
  | null
  | bool (b : Bool)
  | int (n : Int)
  | float (x : Float)
  | text (s : String)
  | list (items : List Json)
  | object (fields : List (String × Json))
  deriving Inhabited

namespace Json

/-- Puts a field where its name belongs in ascending order, in place of one of the same name. -/
def putField {β : Type} (name : String) (value : β) : List (String × β) → List (String × β)
  | [] => [(name, value)]
  | (other, old) :: rest =>
    if name = other then (name, value) :: rest
    else if name < other then (name, value) :: (other, old) :: rest
    else (other, old) :: putField name value rest

/-- Fields in ascending order of their names; the last of several of one name stays. -/
def sortFields {β : Type} (fields : List (String × β)) : List (String × β) :=
  fields.foldl (fun sorted field => putField field.1 field.2 sorted) []

mutual

def canonical : Json → Json
  | .list items => .list (canonicalItems items)
  | .object fields => .object (sortFields (canonicalFields fields))
  | other => other

def canonicalItems : List Json → List Json
  | [] => []
  | item :: rest => canonical item :: canonicalItems rest

def canonicalFields : List (String × Json) → List (String × Json)
  | [] => []
  | (name, value) :: rest => (name, canonical value) :: canonicalFields rest

end

def ofNat (n : Nat) : Json := .int n

/-- `null` for nothing. -/
def ofOption {β : Type} (encode : β → Json) : Option β → Json
  | none => .null
  | some b => encode b

def field? (name : String) : Json → Option Json
  | .object fields => (fields.find? (·.1 == name)).map (·.2)
  | _ => none

end Json

end CrossPlan
