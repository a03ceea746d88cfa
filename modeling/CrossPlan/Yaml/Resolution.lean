import CrossPlan.Json.Value
import CrossPlan.Yaml.Node

/-!
# What the nodes of a YAML text stand for

A plain scalar is nothing, a truth value, a number or a text, by the way it is written; any other
scalar is a text, unless its tag says more.
-/

set_option autoImplicit false

namespace CrossPlan.Yaml

def isNothing (text : String) : Bool := ["null", "Null", "NULL", "~"].contains text

def truth? (text : String) : Option Bool :=
  if ["true", "True", "TRUE"].contains text then some true
  else if ["false", "False", "FALSE"].contains text then some false
  else none

/-- Whether digits follow a zero, which makes a text of them. -/
def hasLeadingZero (s : List Char) : Bool :=
  let body := match s with
    | '-' :: rest | '+' :: rest => rest
    | _ => s
  match body with
  | '0' :: c :: rest => (c :: rest).all Char.isDigit
  | _ => false

/-- A number in the base that its first characters tell. -/
def based? (s : List Char) : Option Nat :=
  match s with
  | '0' :: 'x' :: rest => Numeral.natural? 16 rest
  | '0' :: 'o' :: rest => Numeral.natural? 8 rest
  | '0' :: 'b' :: rest => Numeral.natural? 2 rest
  | _ => none

/-- A number of any size, with an optional sign. -/
def integer? (text : String) : Option Int :=
  let s := text.toList
  let whole (body : List Char) : Option Nat :=
    (based? body).or (if hasLeadingZero s then none else Numeral.natural? 10 body)
  match s with
  | '-' :: rest => (whole rest).map fun n => -(n : Int)
  | '+' :: rest => (whole rest).map fun n => (n : Int)
  | _ => (whole s).map fun n => (n : Int)

/-- A number of 64 bits without sign. -/
def word? (text : String) : Option Nat :=
  match text.toList with
  | '-' :: _ => none
  | _ => ((integer? text).map Int.toNat).filter (· < Count.span)

/-- A finite double, or an infinity or the undefined value by name. -/
def decimal? (text : String) : Option Float :=
  let bare := match text.toList with
    | '+' :: rest => String.ofList rest
    | _ => text
  if [".inf", ".Inf", ".INF"].contains bare then some Numeral.infiniteDouble
  else if ["-.inf", "-.Inf", "-.INF"].contains text then some (-Numeral.infiniteDouble)
  else if [".nan", ".NaN", ".NAN"].contains text then some Numeral.undefinedDouble
  else match text.toList with
    | '+' :: '+' :: _ | '+' :: '-' :: _ => none
    | _ => (Numeral.double? bare).filter (·.isFinite)

/-- An integer as a value: up to 64 bits it is one, up to 128 bits it is refused, and beyond that it
is none. -/
def boundedInteger? (text : String) : Option (Option Json) :=
  (integer? text).bind fun n =>
    let negative := text.startsWith "-"
    let fits (bits : Nat) : Bool :=
      if negative then -(Nat.pow 2 (bits - 1) : Int) ≤ n else n < (Nat.pow 2 bits : Int)
    if fits 64 then some (some (.int n)) else if fits 128 then some none else none

/-- What a plain scalar stands for. -/
def plainValue? (text : String) : Option Json :=
  if text.isEmpty || isNothing text then some .null
  else match truth? text with
    | some b => some (.bool b)
    | none =>
      match boundedInteger? text with
      | some value => value
      | none =>
        match if hasLeadingZero text.toList then none else decimal? text with
        | some x => some (.float x)
        | none => some (.text text)

/-- What a scalar stands for; a tag of its own kind is refused. -/
def scalarValue? (tag : Option String) (isPlain : Bool) (text : String) : Option Json :=
  match tag with
  | none => if isPlain then plainValue? text else some (.text text)
  | some tag =>
    if tag.startsWith "!" then none
    else if tag = "tag:yaml.org,2002:bool" then (truth? text).map .bool
    else if tag = "tag:yaml.org,2002:int" then (boundedInteger? text).join
    else if tag = "tag:yaml.org,2002:float" then (decimal? text).map .float
    else if tag = "tag:yaml.org,2002:null" then if isNothing text then some .null else none
    else some (.text text)

namespace Node

/-- The text of a scalar, whatever it stands for. -/
def text? : Node → Option String
  | .scalar _ _ text => some text
  | _ => none

/-- A number of 64 bits without sign. -/
def word? : Node → Option Nat
  | .scalar _ true text => Yaml.word? text
  | _ => none

def double? : Node → Option Float
  | .scalar _ true text => Yaml.decimal? text
  | _ => none

/-- Nothing, if that is what stands there. -/
def optional {β : Type} (read : Node → Option β) : Node → Option (Option β)
  | .scalar (some tag) isPlain text =>
    if tag = "tag:yaml.org,2002:null" then if isNothing text then some none else none
    else (read (.scalar (some tag) isPlain text)).map some
  | .scalar none true text =>
    if text.isEmpty || isNothing text then some none
    else (read (.scalar none true text)).map some
  | node => (read node).map some

def isBare : Node → Bool
  | .scalar _ true "" => true
  | _ => false

/-- The items of a list; where nothing is written there are none. -/
def items? : Node → Option (List Node)
  | .list _ items => some items
  | node => if node.isBare then some [] else none

def listOf? {β : Type} (read : Node → Option β) (node : Node) : Option (List β) :=
  node.items?.bind fun items => items.mapM read

/-- The entries of a map whose keys are scalars; where nothing is written there are none. -/
def entries? : Node → Option (List (String × Node))
  | .map _ entries => entries.mapM fun entry => entry.1.text?.map fun key => (key, entry.2)
  | node => if node.isBare then some [] else none

def mapOf? {β : Type} (read : Node → Option β) (node : Node) : Option (List (String × β)) :=
  node.entries?.bind fun entries => entries.mapM fun entry =>
    (read entry.2).map fun value => (entry.1, value)

/-- Whether a collection has no tag of its own kind. -/
def hasPlainTag (tag : Option String) : Bool :=
  match tag with
  | some tag => !tag.startsWith "!"
  | none => true

mutual

/-- The value of a node of at most the given depth.  The keys of its maps are texts; with `loose`
other keys are let pass, and only shown to be there. -/
def toJson? (loose : Bool) : (depth : Nat) → Node → Option Json
  | _, .scalar tag isPlain text => scalarValue? tag isPlain text
  | 0, _ => none
  | depth + 1, .list tag items =>
    if hasPlainTag tag then (itemsToJson? loose depth items).map .list else none
  | depth + 1, .map tag entries =>
    if hasPlainTag tag then (entriesToJson? loose depth entries).map .object else none
  | _, .recursive => none

def itemsToJson? (loose : Bool) : (depth : Nat) → List Node → Option (List Json)
  | _, [] => some []
  | depth, item :: rest => do
    pure ((← toJson? loose depth item) :: (← itemsToJson? loose depth rest))

def entriesToJson? (loose : Bool) :
    (depth : Nat) → List (Node × Node) → Option (List (String × Json))
  | _, [] => some []
  | depth, (key, value) :: rest => do
    let name ← match ← toJson? loose depth key with
      | .text name => some name
      | _ => if loose then some "" else none
    pure ((name, ← toJson? loose depth value) :: (← entriesToJson? loose depth rest))

end

end Node

end CrossPlan.Yaml
