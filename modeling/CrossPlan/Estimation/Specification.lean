import CrossPlan.Estimation.CostModel
import CrossPlan.Json.Reading
import CrossPlan.Table
import CrossPlan.Yaml.Resolution

/-!
# Declared costs

Cost models are declared under keys.  A source answers for a key with its model, with nothing if the
key is not declared, or with an error.  A cache in front of a source asks for each key once, as long
as it is answered.
-/

set_option autoImplicit false

namespace CrossPlan

inductive SpecError where
  | unreadable
  | invalidModel (key : String) (fault : ModelFault)
  | unavailable (reason : String)
  deriving DecidableEq, Repr

def SpecError.message : SpecError → String
  | .unreadable => "cannot parse cost specifications"
  | .invalidModel key fault => "invalid cost model for '" ++ key ++ "': " ++ fault.message
  | .unavailable reason => "specification source unavailable: " ++ reason

abbrev SpecSource (α : Type) := String → Except SpecError (Option (CostModel α))

abbrev Specifications (α : Type) := Table (CostModel α)

namespace Specifications

variable {α : Type} [Quantity α]

def check (key : String) (model : CostModel α) : Except SpecError Unit :=
  model.validate.mapError (.invalidModel key)

/-- Adds a model; one that cannot be used is refused. -/
def declare (specs : Specifications α) (key : String) (model : CostModel α) :
    Except SpecError (Specifications α) := do
  check key model
  pure (specs.insert key model)

/-- The models as they are, if each can be used; else the fault of the first key. -/
def checked (specs : Specifications α) : Except SpecError (Specifications α) := do
  specs.rows.forM fun row => check row.1 row.2
  pure specs

omit [Quantity α] in
def source (specs : Specifications α) : SpecSource α := fun key => .ok (specs.get? key)

def ofJson? : Json → Option (Specifications Float)
  | .object fields => do
    let models ← fields.mapM fun field => do pure (field.1, ← CostModel.ofJson? field.2)
    pure (.ofList models)
  | _ => none

def readJson (text : String) : Except SpecError (Specifications Float) :=
  match (Json.read? text).bind ofJson? with
  | none => .error .unreadable
  | some specs => specs.checked

/-- The models of a YAML text, which maps keys to models. -/
def readYaml (text : String) : Except SpecError (Specifications Float) :=
  let models? := do
    let node ← Yaml.Node.read? text
    node.mapOf? fun model => (model.toJson? false 127).bind CostModel.ofJson?
  match models? with
  | none => .error .unreadable
  | some models => checked (Table.ofList models)

end Specifications

/-- What a source has answered so far, and how often it was asked. -/
structure SpecCache (α : Type) where
  held : Table (Option (CostModel α))
  fetches : Nat

namespace SpecCache

variable {α : Type}

def empty : SpecCache α := ⟨.empty, 0⟩

/-- Answers from the cache, else from the source; only answers are kept, not errors. -/
def lookup (source : SpecSource α) (cache : SpecCache α) (key : String) :
    Except SpecError (Option (CostModel α)) × SpecCache α :=
  match cache.held.get? key with
  | some held => (.ok held, cache)
  | none =>
    match source key with
    | .ok found => (.ok found, ⟨cache.held.insert key found, cache.fetches + 1⟩)
    | .error error =>
      (.error (.unavailable (key ++ ": " ++ error.message)), ⟨cache.held, cache.fetches + 1⟩)

/-- Forgets all answers; the count of questions stays. -/
def invalidate (cache : SpecCache α) : SpecCache α := { cache with held := .empty }

end SpecCache

end CrossPlan
