import CrossPlan.Json.Writing

/-!
# Rows

A row is a list of named scalars.  A name may occur twice; reading then meets the first of them, and
a JSON text keeps the last.
-/

set_option autoImplicit false

namespace CrossPlan

inductive Scalar where
  | null
  | bool (b : Bool)
  | int (n : Int)
  | float (x : Float)
  | text (s : String)
  deriving BEq, Inhabited

namespace Scalar

/-- The size in bytes that a value is taken to have. -/
def bytes : Scalar → Nat
  | .null | .bool _ => 1
  | .int _ | .float _ => 8
  | .text s => s.utf8ByteSize + 8

def toJson : Scalar → Json
  | .null => .null
  | .bool b => .bool b
  | .int n => .int n
  | .float x => if x.isFinite then .float x else .null
  | .text s => .text s

/-- Whether an integer fits into 64 bits with sign. -/
def fits (n : Int) : Bool := -(Count.half : Int) ≤ n && n < Count.half

/-- The nearest double to an integer. -/
def doubleOf (n : Int) : Float := Float.ofInt n

/-- An integer beyond 64 bits with sign becomes a double, what is no finite number is nothing, and a
container becomes its text. -/
def ofJson : Json → Scalar
  | .null => .null
  | .bool b => .bool b
  | .int n => if fits n then .int n else .float (doubleOf n)
  | .float x => if x.isFinite then .float x else .null
  | .text s => .text s
  | other => .text (Json.write other.canonical)

/-- The text under which a value is shown and looked up. -/
def render : Scalar → String
  | .null => "null"
  | .bool b => if b then "true" else "false"
  | .int n => toString n
  | .float x => Decimal.plain x
  | .text s => s

/-- The JSON form that names the kind of the value. -/
def tagged : Scalar → Json
  | .null => .text "Null"
  | .bool b => .object [("Bool", .bool b)]
  | .int n => .object [("I64", .int n)]
  | .float x => .object [("F64", if x.isFinite then .float x else .null)]
  | .text s => .object [("Str", .text s)]

def isNull : Scalar → Bool
  | .null => true
  | _ => false

end Scalar

structure Record where
  fields : List (String × Scalar)
  deriving BEq, Inhabited

namespace Record

def empty : Record := ⟨[]⟩

/-- The value of the first field of a name. -/
def get? (row : Record) (name : String) : Option Scalar :=
  (row.fields.find? (·.1 == name)).map (·.2)

/-- Replaces the first field of a name, or appends one. -/
def setField (name : String) (value : Scalar) : List (String × Scalar) → List (String × Scalar)
  | [] => [(name, value)]
  | field :: rest =>
    if field.1 = name then (name, value) :: rest else field :: setField name value rest

def set (row : Record) (name : String) (value : Scalar) : Record :=
  ⟨setField name value row.fields⟩

def names (row : Record) : List String := row.fields.map (·.1)

def bytes (row : Record) : Nat :=
  Count.total (row.fields.map fun field => field.1.utf8ByteSize + field.2.bytes)

/-- A value that is no object becomes a row of one field. -/
def ofJson (value : Json) : Record :=
  match value.canonical with
  | .object fields => ⟨fields.map fun field => (field.1, Scalar.ofJson field.2)⟩
  | other => ⟨[("value", Scalar.ofJson other)]⟩

/-- An object with ascending names; the last of several fields of one name is kept. -/
def toJson (row : Record) : Json :=
  .object (Json.sortFields (row.fields.map fun field => (field.1, field.2.toJson)))

/-- The JSON form that keeps the order of the fields and the kinds of their values. -/
def tagged (row : Record) : Json :=
  .object [("fields", .list (row.fields.map fun field => .list [.text field.1, field.2.tagged]))]

end Record

/-- Rows as JSON texts, one on each line. -/
def jsonLines (rows : List Record) : String :=
  String.join (rows.map fun row => row.toJson.write ++ "\n")

end CrossPlan
