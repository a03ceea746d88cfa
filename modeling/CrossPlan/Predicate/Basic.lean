import CrossPlan.Decimal.Numeral
import CrossPlan.Predicate.Like
import CrossPlan.Record

/-!
# Predicates on rows

A test compares a column with a literal, matches it against a pattern, or looks it up among the
values of a broadcast.  Tests are joined by `not`, `and` and `or`.
-/

set_option autoImplicit false

namespace CrossPlan

inductive Comparison where
  | eq
  | ne
  | lt
  | le
  | gt
  | ge
  deriving DecidableEq, Repr, Inhabited

namespace Comparison

def symbol : Comparison → String
  | .eq => "=="
  | .ne => "!="
  | .lt => "<"
  | .le => "<="
  | .gt => ">"
  | .ge => ">="

/-- Whether the comparison is true of two values in the given order. -/
def holds : Comparison → Ordering → Bool
  | .eq, order => order == .eq
  | .ne, order => order != .eq
  | .lt, order => order == .lt
  | .le, order => order != .gt
  | .gt, order => order == .gt
  | .ge, order => order != .lt

end Comparison

inductive Predicate where
  | compare (column : String) (comparison : Comparison) (literal : String)
  | like (column pattern : String)
  | member (column broadcast : String)
  | not (predicate : Predicate)
  | and (left right : Predicate)
  | or (left right : Predicate)
  deriving DecidableEq, Repr, Inhabited

/-- The values of broadcasts, by broadcast and then by the column that they are looked up for. -/
abbrev Memberships := String → String → List String

namespace Memberships

def none : Memberships := fun _ _ => []

def insert (members : Memberships) (broadcast column : String) (values : List String) :
    Memberships := fun b c =>
  if b = broadcast ∧ c = column then values else members b c

end Memberships

/-- The order of two doubles, unless one of them is undefined. -/
def doubleOrder? (x y : Float) : Option Ordering :=
  if x < y then some .lt else if y < x then some .gt else if x == y then some .eq else none

namespace Predicate

/-- The order of a value and a literal of its kind, unless the literal cannot be read as one. -/
def order? (literal : String) : Scalar → Option Ordering
  | .null => none
  | .bool b => (Numeral.truth? literal).map fun other => Ord.compare b other
  | .int n =>
    match Numeral.integer? literal with
    | some other => some (Ord.compare n other)
    | none => (Numeral.double? literal).bind (doubleOrder? (Scalar.doubleOf n))
  | .float x => (Numeral.double? literal).bind (doubleOrder? x)
  | .text s => some (Ord.compare s literal)

/-- Whether a value compares with a literal as asked.  Truth values have no order, and a literal
that cannot be read as the kind of the value compares with nothing. -/
def compares (comparison : Comparison) (literal : String) (value : Scalar) : Bool :=
  let ordered := match value with
    | .bool _ => comparison == .eq || comparison == .ne
    | _ => true
  match order? literal value with
  | some order => ordered && comparison.holds order
  | none => false

/-- The text of a value that is there and is not `null`. -/
def shown? (row : Record) (column : String) : Option String :=
  (row.get? column).bind fun value => if value.isNull then none else some value.render

/-- Whether a row satisfies a predicate.  A test on a missing or null value fails. -/
def eval (row : Record) (members : Memberships) : Predicate → Bool
  | .compare column comparison literal =>
    match row.get? column with
    | some value => compares comparison literal value
    | none => false
  | .like column pattern =>
    match shown? row column with
    | some text => CrossPlan.like text pattern
    | none => false
  | .member column broadcast =>
    match shown? row column with
    | some text => (members broadcast column).contains text
    | none => false
  | .not p => !p.eval row members
  | .and p q => p.eval row members && q.eval row members
  | .or p q => p.eval row members || q.eval row members

/-- The columns and broadcasts of the memberships tested, from left to right. -/
def lookups : Predicate → List (String × String)
  | .member column broadcast => [(column, broadcast)]
  | .not p => p.lookups
  | .and p q | .or p q => p.lookups ++ q.lookups
  | _ => []

/-- Each membership tested, once, in ascending order. -/
def memberships (predicate : Predicate) : List (String × String) :=
  predicate.lookups.eraseDups.mergeSort fun a b => a.1 < b.1 || (a.1 == b.1 && a.2 ≤ b.2)

def broadcasts (predicate : Predicate) : List String :=
  ((predicate.lookups.map (·.2)).eraseDups).mergeSort fun a b => a ≤ b

end Predicate

/-- The values that rows of a broadcast offer for a column: the value under its name, or else the
first one of the row; each once, in ascending order, without `null`. -/
def broadcastMembers (column : String) (rows : List Record) : List String :=
  let value? (row : Record) : Option Scalar :=
    (row.get? column).or (row.fields.head?.map (·.2))
  let shown := rows.filterMap fun row =>
    (value? row).bind fun value => if value.isNull then none else some value.render
  shown.eraseDups.mergeSort fun a b => a ≤ b

end CrossPlan
