import CrossPlan.Kind
import CrossPlan.Text.Blank

/-!
# Platforms and the forms of data between them

Operators run in the local process or on the distributed engine.  Between two operators rows travel
in one of three forms, and four conversions lead from one form to another.
-/

set_option autoImplicit false

namespace CrossPlan

inductive Platform where
  | inProcess
  | distributed
  deriving DecidableEq, Repr, Inhabited

inductive Form where
  /-- rows one after the other, read once -/
  | stream
  | collection
  | partitioned
  deriving DecidableEq, Repr, Inhabited

namespace Form

def all : List Form := [.stream, .collection, .partitioned]

def name : Form → String
  | .stream => "stream"
  | .collection => "collection"
  | .partitioned => "partitioned"

def ofName? (name : String) : Option Form :=
  all.find? fun form => form.name == name

/-- The name of the data structure that holds the rows. -/
def representation : Form → String
  | .stream => "RowStream"
  | .collection => "Collection"
  | .partitioned => "PartitionedCollection"

/-- The name of the form where plans are described by structure. -/
def title : Form → String
  | .stream => "Stream"
  | .collection => "Collection"
  | .partitioned => "Partitioned"

def reusable : Form → Bool
  | .stream => false
  | .collection | .partitioned => true

/-- The platforms that can fill the form; the same ones can read it. -/
def platforms : Form → List Platform
  | .stream => [.inProcess]
  | .collection => [.inProcess, .distributed]
  | .partitioned => [.distributed]

end Form

namespace Platform

def all : List Platform := [.inProcess, .distributed]

def name : Platform → String
  | .inProcess => "local"
  | .distributed => "distributed"

def index (platform : Platform) : Nat := all.idxOf platform

def ofName? (name : String) : Option Platform :=
  all.find? fun platform => platform.name == name

/-- The platform of a name in any case of letters, with blanks around it. -/
def parse? (text : String) : Option Platform :=
  all.find? fun platform => Text.sameLetters platform.name (Text.trim text)

def kinds (_ : Platform) : List Kind := Kind.all

def supports (platform : Platform) (kind : Kind) : Bool := platform.kinds.contains kind

/-- The forms in which the platform exchanges rows, the preferred one first. -/
def forms : Platform → List Form
  | .inProcess => [.stream, .collection]
  | .distributed => [.partitioned, .collection]

/-- The key under which the cost of a phase of an operator is declared. -/
def costKey (platform : Platform) (operator phase : String) : String :=
  platform.name ++ "." ++ operator ++ "." ++ phase

/-- The platforms named in a list with commas; the first name that is none comes back as it is. -/
def parseList (text : String) : Except String (List Platform) :=
  let names := ((Text.pieces (· == ',') text.toList).map Text.trimChars).filter fun s => !s.isEmpty
  names.mapM fun name =>
    match parse? (String.ofList name) with
    | some platform => .ok platform
    | none => .error (String.ofList name)

end Platform

/-- A step from one form to another. -/
inductive Conversion where
  | collect
  | stream
  | parallelize
  | gather
  deriving DecidableEq, Repr, Inhabited

namespace Conversion

def all : List Conversion := [.collect, .stream, .parallelize, .gather]

def source : Conversion → Form
  | .collect => .stream
  | .stream | .parallelize => .collection
  | .gather => .partitioned

def target : Conversion → Form
  | .collect | .gather => .collection
  | .stream => .stream
  | .parallelize => .partitioned

/-- The key under which the cost of the conversion is declared. -/
def key : Conversion → String
  | .collect => "conversion.collect"
  | .stream => "conversion.stream"
  | .parallelize => "conversion.parallelize"
  | .gather => "conversion.gather"

def leaving (form : Form) : List Conversion :=
  all.filter fun conversion => conversion.source == form

end Conversion

end CrossPlan
