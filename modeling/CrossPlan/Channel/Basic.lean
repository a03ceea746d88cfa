import CrossPlan.Platform
import CrossPlan.Record

/-!
# Channels

A channel carries the rows that a task puts out.  It is empty until its producer fills it, holds
parts exactly when its form is partitioned, and can be copied and converted.
-/

set_option autoImplicit false

namespace CrossPlan

inductive ChannelData where
  | empty
  | rows (rows : List Record)
  | parts (parts : List (List Record))
  deriving BEq, Inhabited

structure Channel where
  id : Nat
  form : Form
  producer : Nat
  data : ChannelData
  lineage : Option Nat
  deriving Inhabited

inductive ChannelError where
  | wrongForm (conversion : Conversion) (form : Form)
  | unproduced (id : Nat) (form : Form) (producer : Nat)
  deriving DecidableEq, Repr

def ChannelError.reason : ChannelError → String
  | .wrongForm conversion form =>
    "cannot apply " ++ conversion.source.name ++ " -> " ++ conversion.target.name ++ " to a "
      ++ form.name ++ " instance"
  | .unproduced id form producer =>
    "ChannelId(" ++ toString id ++ ") (" ++ form.name ++ ") was read before its producer TaskId("
      ++ toString producer ++ ") filled it"

def ChannelError.message (error : ChannelError) : String :=
  "channel error: " ++ error.reason

namespace Channel

def create (id : Nat) (form : Form) (producer : Nat) : Channel :=
  ⟨id, form, producer, .empty, none⟩

def produced (channel : Channel) : Bool :=
  match channel.data with
  | .empty => false
  | _ => true

/-- Fills the channel with rows; a partitioned one holds them as one part. -/
def acceptRows (channel : Channel) (rows : List Record) : Channel :=
  { channel with
    data := match channel.form with
      | .partitioned => .parts [rows]
      | .stream | .collection => .rows rows }

/-- Fills the channel with parts; a channel that is not partitioned holds their rows. -/
def acceptParts (channel : Channel) (parts : List (List Record)) : Channel :=
  { channel with
    data := match channel.form with
      | .partitioned => .parts parts
      | .stream | .collection => .rows parts.flatten }

def content (channel : Channel) : List Record :=
  match channel.data with
  | .empty => []
  | .rows rows => rows
  | .parts parts => parts.flatten

def cardinality (channel : Channel) : Nat := channel.content.length

def bytes (channel : Channel) : Nat := Count.total (channel.content.map Record.bytes)

def unproduced (channel : Channel) : ChannelError :=
  .unproduced channel.id channel.form channel.producer

def rows (channel : Channel) : Except ChannelError (List Record) :=
  match channel.data with
  | .empty => .error channel.unproduced
  | .rows rows => .ok rows
  | .parts parts => .ok parts.flatten

/-- The rows in parts; a channel that is not partitioned is one part. -/
def parts (channel : Channel) : Except ChannelError (List (List Record)) :=
  match channel.data with
  | .empty => .error channel.unproduced
  | .rows rows => .ok [rows]
  | .parts parts => .ok parts

/-- A channel with the same content under another number. -/
def duplicate (channel : Channel) (id : Nat) : Channel := { channel with id }

def withLineage (channel : Channel) (node : Nat) : Channel := { channel with lineage := some node }

end Channel

/-- Deals rows to `max 1 count` parts in turn: row `i` goes to part `i mod n`. -/
def dealRows (rows : List Record) (count : Nat) : List (List Record) :=
  let n := max 1 count
  (List.range n).map fun part =>
    (rows.zipIdx.filter fun entry => entry.2 % n == part).map (·.1)

namespace Channel

/-- The channel in another form under a new number; what it holds and where it came from stay. -/
def convert (channel : Channel) (conversion : Conversion) (id parallelism : Nat) :
    Except ChannelError Channel :=
  if conversion.source ≠ channel.form then .error (.wrongForm conversion channel.form)
  else do
    let rows ← channel.rows
    let target : Channel := { create id conversion.target channel.producer with
      lineage := channel.lineage }
    match conversion.target with
    | .partitioned => pure (target.acceptParts (dealRows rows parallelism))
    | .stream | .collection => pure (target.acceptRows rows)

end Channel

end CrossPlan
