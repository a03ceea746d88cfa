import CrossPlan.Predicate.Reading

/-!
# Where sinks write and sources read

A sink writes to a named result in memory or to a file.  A text source reads a file, unless its
address leads elsewhere.
-/

set_option autoImplicit false

namespace CrossPlan

inductive Destination where
  | memory (name : String)
  | file (path : String)
  deriving DecidableEq, Repr

def Destination.read (text : String) : Except BindError Destination :=
  let text := Text.trim text
  match Text.strip? "memory://" text with
  | some name => if name = "" then .error (.destination text) else .ok (.memory name)
  | none =>
    let path := (Text.strip? "file://" text).getD text
    if path = "" || Text.occurs "://".toList path.toList then .error (.destination text)
    else .ok (.file path)

namespace SourceAddress

def path (url : String) : String := (Text.strip? "file://" url).getD url

/-- Whether an address leads to another machine. -/
def isRemote (url : String) : Bool := url.startsWith "http://" || url.startsWith "https://"

end SourceAddress

end CrossPlan
