import CrossPlan.Digest.Fingerprint
import CrossPlan.Json.Reading
import CrossPlan.Json.Shape
import CrossPlan.Plan.Basic

/-!
# Plans as JSON

The text that a plan is written to, how it is read back, and the fingerprint of a plan.
-/

set_option autoImplicit false

namespace CrossPlan

/-- A name beside a value, alone where there is no value. -/
def Json.variant? : Json → Option (String × Json)
  | .text name => some (name, .null)
  | .object [(name, value)] => some (name, value)
  | _ => none

def Scalar.ofTagged? (value : Json) : Option Scalar := do
  match ← value.variant? with
  | ("Null", .null) => some .null
  | ("Bool", body) => body.bool?.map .bool
  | ("I64", body) => body.signedWord?.map .int
  | ("F64", body) => body.double?.map .float
  | ("Str", body) => body.text?.map .text
  | _ => none

def Record.fieldOfTagged? : Json → Option (String × Scalar)
  | .list [.text name, value] => (Scalar.ofTagged? value).map (name, ·)
  | _ => none

def Record.ofTagged? (value : Json) : Option Record := do
  match ← value.shape? ["fields"] with
  | [fields] => pure ⟨← fields.required (Json.listOf? Record.fieldOfTagged?)⟩
  | _ => none

def Action.toJson : Action → Json
  | .collectionSource rows =>
    .object [("CollectionSource", .object [("records", .list (rows.map Record.tagged))])]
  | .textSource url => .object [("TextFileSource", .object [("url", .text url)])]
  | .filter predicate => .object [("Filter", .object [("predicate", .text predicate)])]
  | .map renames => .object [("Map", .object [("expr", .text renames)])]
  | .project columns => .object [("Project", .object [("columns", .list (columns.map .text))])]
  | .union => .text "Union"
  | .sink destination => .object [("Sink", .object [("destination", .text destination)])]

def Action.ofJson? (value : Json) : Option Action := do
  let only {β : Type} (name : String) (read : Json → Option β) (body : Json) : Option β := do
    match ← body.shape? [name] with
    | [entry] => entry.required read
    | _ => none
  match ← value.variant? with
  | ("CollectionSource", body) =>
    (only "records" (Json.listOf? Record.ofTagged?) body).map .collectionSource
  | ("TextFileSource", body) => (only "url" Json.text? body).map .textSource
  | ("Filter", body) => (only "predicate" Json.text? body).map .filter
  | ("Map", body) => (only "expr" Json.text? body).map .map
  | ("Project", body) => (only "columns" (Json.listOf? Json.text?) body).map .project
  | ("Union", .null) => some .union
  | ("Sink", body) => (only "destination" Json.text? body).map .sink
  | _ => none

def Slot.toJson (slot : Slot) : Json :=
  .object [("name", .text slot.name), ("broadcast", .bool slot.broadcast)]

def Slot.ofJson? (value : Json) : Option Slot := do
  match ← value.shape? ["name", "broadcast"] with
  | [name, broadcast] => pure ⟨← name.required Json.text?, ← broadcast.required Json.bool?⟩
  | _ => none

def Operator.toJson (operator : Operator) : Json :=
  .object [("id", .int operator.id), ("name", .text operator.name),
    ("op", operator.action.toJson), ("inputs", .list (operator.inputs.map Slot.toJson)),
    ("outputs", .list (operator.outputs.map Slot.toJson))]

def Operator.ofJson? (value : Json) : Option Operator := do
  match ← value.shape? ["id", "name", "op", "inputs", "outputs"] with
  | [id, name, action, inputs, outputs] =>
    pure ⟨← id.required Json.word?, ← name.required Json.text?, ← action.required Action.ofJson?,
      ← inputs.required (Json.listOf? Slot.ofJson?), ← outputs.required (Json.listOf? Slot.ofJson?)⟩
  | _ => none

def SlotRef.toJson (slot : SlotRef) : Json :=
  .object [("operator", .int slot.operator), ("slot", .int slot.slot)]

def SlotRef.ofJson? (value : Json) : Option SlotRef := do
  match ← value.shape? ["operator", "slot"] with
  | [operator, slot] => pure ⟨← operator.required Json.word?, ← slot.required Json.word?⟩
  | _ => none

def Edge.toJson (edge : Edge) : Json :=
  .object [("from", edge.source.toJson), ("to", edge.target.toJson)]

def Edge.ofJson? (value : Json) : Option Edge := do
  match ← value.shape? ["from", "to"] with
  | [source, target] =>
    pure ⟨← source.required SlotRef.ofJson?, ← target.required SlotRef.ofJson?⟩
  | _ => none

namespace Plan

def toJson (plan : Plan) : Json :=
  .object [("operators", .list (plan.operators.map Operator.toJson)),
    ("edges", .list (plan.edges.map Edge.toJson))]

def ofJson? (value : Json) : Option Plan := do
  match ← value.shape? ["operators", "edges"] with
  | [operators, edges] =>
    pure ⟨← operators.required (Json.listOf? Operator.ofJson?),
      ← edges.required (Json.listOf? Edge.ofJson?)⟩
  | _ => none

def text (plan : Plan) : String := plan.toJson.write

def read? (text : String) : Option Plan := (Json.read? text).bind ofJson?

def fingerprint (plan : Plan) : Fingerprint :=
  Fingerprint.ofJson .operatorPlan plan.toJson

end Plan

end CrossPlan
