import CrossPlan.Decimal.Numeral
import CrossPlan.Json.Reading
import CrossPlan.Json.Shape
import CrossPlan.Json.Writing
import CrossPlan.Lineage.Basic

/-!
# Lineage as JSON

The text that a finished lineage is kept in, and how it is read back.
-/

set_option autoImplicit false

namespace CrossPlan

namespace RunId

def unset : String := "00000000-0000-0000-0000-000000000000"

def isHex (c : Char) : Bool := (Numeral.digit? 16 c).isSome

/-- Groups of hexadecimal digits of the given lengths with a hyphen between them. -/
def grouped : List Nat → List Char → Option (List Char)
  | [], _ => none
  | [count], s => if s.length = count ∧ s.all isHex then some s else none
  | count :: counts, s =>
    let group := s.take count
    match s.drop count with
    | '-' :: rest =>
      if group.length = count ∧ group.all isHex then (grouped counts rest).map (group ++ ·)
      else none
    | _ => none

def hyphenated (digits : List Char) : String :=
  let part (start count : Nat) := String.ofList ((digits.drop start).take count)
  "-".intercalate [part 0 8, part 8 4, part 12 4, part 16 4, part 20 12]

/-- A run number: 32 hexadecimal digits, plain or in five groups, the latter also in braces or as a
name of the scheme for such numbers.  Its one form has five groups of small letters. -/
def parse? (text : String) : Option String :=
  let s := text.toList
  let groups := grouped [8, 4, 4, 4, 12]
  let digits :=
    if s.length = 32 then if s.all isHex then some s else none
    else if s.length = 38 then
      if s.head? = some '\x7b' ∧ s.getLast? = some '\x7d' then groups (s.drop 1).dropLast else none
    else if s.length = 45 then (Text.after? "urn:uuid:".toList s).bind groups
    else groups s
  digits.map fun ds => hyphenated (ds.map Char.toLower)

end RunId

def Interval.toJson (interval : Interval Float) : Json :=
  .object [("lower", .float interval.lower), ("upper", .float interval.upper)]

def LoadProfile.toJson (profile : LoadProfile Float) : Json :=
  .object [("time_ms", profile.time.toJson), ("memory_bytes", profile.memory.toJson),
    ("network_bytes", profile.network.toJson), ("confidence", .float profile.confidence)]

def RealizedCost.toJson (cost : RealizedCost Float) : Json :=
  .object [("elapsed_ms", .float cost.elapsedMs), ("input_cardinality", .int cost.inputRows),
    ("output_cardinality", .int cost.outputRows), ("output_bytes", .int cost.outputBytes)]

def LineageNode.toJson (node : LineageNode Float) : Json :=
  .object [("task", .int node.task), ("operator", .text node.operator),
    ("phase", .text node.phase.name), ("spec_key", Json.ofOption .text node.costKey),
    ("estimate", Json.ofOption LoadProfile.toJson node.estimate),
    ("realized", Json.ofOption RealizedCost.toJson node.realized),
    ("channel", Json.ofOption Json.ofNat node.channel)]

def LineageReport.toJson (report : LineageReport Float) : Json :=
  .object [("run_id", .text report.runId), ("engine_version", .text report.engineVersion),
    ("plan_fingerprint", .text report.fingerprint), ("started_ms", .int report.startedMs),
    ("finished_ms", .int report.finishedMs),
    ("nodes", .list (report.lineage.nodes.map LineageNode.toJson)),
    ("edges", .list (report.lineage.edges.map fun edge => .list [.int edge.1, .int edge.2]))]

def Interval.ofJson? (value : Json) : Option (Interval Float) := do
  match ← value.shape? ["lower", "upper"] with
  | [lower, upper] => pure ⟨← lower.required Json.double?, ← upper.required Json.double?⟩
  | _ => none

def LoadProfile.ofJson? (value : Json) : Option (LoadProfile Float) := do
  match ← value.shape? ["time_ms", "memory_bytes", "network_bytes", "confidence"] with
  | [time, memory, network, confidence] =>
    pure ⟨← time.required Interval.ofJson?, ← memory.required Interval.ofJson?,
      ← network.required Interval.ofJson?, ← confidence.required Json.double?⟩
  | _ => none

def RealizedCost.ofJson? (value : Json) : Option (RealizedCost Float) := do
  match ← value.shape? ["elapsed_ms", "input_cardinality", "output_cardinality",
    "output_bytes"] with
  | [elapsed, input, output, bytes] =>
    pure ⟨← elapsed.required Json.double?, ← input.required Json.word?,
      ← output.required Json.word?, ← bytes.required Json.word?⟩
  | _ => none

def LineageNode.ofJson? (value : Json) : Option (LineageNode Float) := do
  match ← value.shape? ["task", "operator", "phase", "spec_key", "estimate", "realized",
    "channel"] with
  | [task, operator, phase, key, estimate, realized, channel] =>
    pure ⟨← task.required Json.word?, ← operator.required Json.text?,
      ← phase.required (Json.choice? Phase.ofName?), ← key.optional Json.text?,
      ← estimate.optional LoadProfile.ofJson?, ← realized.optional RealizedCost.ofJson?,
      ← channel.optional Json.word?⟩
  | _ => none

def Lineage.edgeOfJson? : Json → Option (Nat × Nat)
  | .list [earlier, later] => do pure (← earlier.word?, ← later.word?)
  | _ => none

def LineageReport.ofJson? (value : Json) : Option (LineageReport Float) := do
  match ← value.shape? ["run_id", "engine_version", "plan_fingerprint", "started_ms",
    "finished_ms", "nodes", "edges"] with
  | [run, version, fingerprint, started, finished, nodes, edges] =>
    pure
      { runId := ← run.required fun id => id.text?.bind RunId.parse?
        engineVersion := ← version.required Json.text?
        fingerprint := ← fingerprint.required Json.text?
        startedMs := ← started.required Json.word?
        finishedMs := ← finished.required Json.word?
        lineage :=
          { nodes := ← nodes.required (Json.listOf? LineageNode.ofJson?)
            edges := ← edges.required (Json.listOf? Lineage.edgeOfJson?) } }
  | _ => none

def LineageReport.text (report : LineageReport Float) : String :=
  report.toJson.writeWide 0

def LineageReport.read? (text : String) : Option (LineageReport Float) :=
  (Json.read? text).bind ofJson?

end CrossPlan
