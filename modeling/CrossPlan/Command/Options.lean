import CrossPlan.Decimal.Numeral
import CrossPlan.Text.Blank

/-!
# Arguments of the command line

A command is followed by its options.  An option with a value takes what follows it or what stands
behind an equals sign; what starts with a hyphen is no value.  The first argument that does not fit
decides.
-/

set_option autoImplicit false

namespace CrossPlan

inductive Usage where
  | help
  | wrong
  deriving DecidableEq, Repr

structure OptionRule where
  name : String
  letter : Option Char
  takesValue : Bool
  repeatable : Bool
  accepts : String → Bool

namespace OptionRule

def flag (name : String) : OptionRule := ⟨name, none, false, false, fun _ => true⟩

/-- An option whose value is the path of a file. -/
def path (name : String) : OptionRule := ⟨name, none, true, false, fun value => value ≠ ""⟩

def text (name : String) : OptionRule := ⟨name, none, true, false, fun _ => true⟩

def number (name : String) : OptionRule :=
  ⟨name, none, true, false, fun value => (Numeral.word? value).isSome⟩

end OptionRule

abbrev GivenOptions := List (String × String)

namespace GivenOptions

/-- Adds an option, unless it must not be repeated or does not accept its value. -/
def add (given : GivenOptions) (rule : OptionRule) (value : String) :
    Except Usage GivenOptions :=
  if !rule.repeatable && (given.lookup rule.name).isSome then .error .wrong
  else if rule.accepts value then .ok (given ++ [(rule.name, value)])
  else .error .wrong

/-- How an argument begins an option: with its value, or with the value to come. -/
inductive Start where
  | complete (rule : OptionRule) (value : String)
  | pending (rule : OptionRule)

/-- Reads an argument with two hyphens. -/
def startLong (rules : List OptionRule) (body : List Char) : Except Usage Start :=
  let name := String.ofList (body.takeWhile (· != '='))
  let value := (body.dropWhile (· != '=')).drop 1
  let attached := body.contains '='
  match rules.find? fun rule => rule.name == name with
  | none => .error (if name = "help" ∧ !attached then .help else .wrong)
  | some rule =>
    if !rule.takesValue then if attached then .error .wrong else .ok (.complete rule "")
    else if attached then .ok (.complete rule (String.ofList value))
    else .ok (.pending rule)

def startShort (rules : List OptionRule) (letter : Char) (rest : List Char) :
    Except Usage Start :=
  match rules.find? fun rule => rule.letter == some letter with
  | none => .error (if letter = 'h' then .help else .wrong)
  | some rule =>
    match rest with
    | [] => .ok (.pending rule)
    | '=' :: value => .ok (.complete rule (String.ofList value))
    | value => .ok (.complete rule (String.ofList value))

def start (rules : List OptionRule) (argument : String) : Except Usage Start :=
  match argument.toList with
  | '-' :: '-' :: body => startLong rules body
  | '-' :: letter :: rest => startShort rules letter rest
  | _ => .error .wrong

/-- Whether an argument can be the value of the option before it. -/
def isValue (argument : String) : Bool := argument = "-" || !argument.startsWith "-"

def read (rules : List OptionRule) : List String → GivenOptions → Except Usage GivenOptions
  | [], given => .ok given
  | argument :: rest, given =>
    if argument = "--" then if rest.isEmpty then .ok given else .error .wrong
    else
      match start rules argument, rest with
      | .error usage, _ => .error usage
      | .ok (.complete rule value), rest => do read rules rest (← given.add rule value)
      | .ok (.pending _), [] => .error .wrong
      | .ok (.pending rule), value :: rest =>
        if isValue value then do read rules rest (← given.add rule value) else .error .wrong

def values (given : GivenOptions) (name : String) : List String :=
  (given.filter fun option => option.1 == name).map (·.2)

end GivenOptions

structure CompileOptions where
  pipeline : String
  spec : Option String
  priority : Option String
  exhaustiveLimit : Option Nat
  parallelism : Option Nat
  calibrate : List String

inductive Command where
  | validate (pipeline : String)
  | explain (options : CompileOptions) (asJson : Bool)
  | run (options : CompileOptions) (lineageOut : Option String) (printResults : Bool)

namespace Command

def pipelineRule : OptionRule := { OptionRule.path "pipeline" with letter := some 'p' }

def compileRules : List OptionRule :=
  [pipelineRule, .path "spec", .text "platform-priority", .number "exhaustive-limit",
    .number "parallelism", { OptionRule.path "calibrate" with repeatable := true }]

def compileOptions (given : GivenOptions) : Except Usage CompileOptions :=
  match given.lookup "pipeline" with
  | none => .error .wrong
  | some pipeline => .ok
    { pipeline
      spec := given.lookup "spec"
      priority := given.lookup "platform-priority"
      exhaustiveLimit := (given.lookup "exhaustive-limit").bind Numeral.word?
      parallelism := (given.lookup "parallelism").bind Numeral.word?
      calibrate := given.values "calibrate" }

def read : List String → Except Usage Command
  | "validate" :: arguments => do
    let given ← GivenOptions.read [pipelineRule] arguments []
    match given.lookup "pipeline" with
    | some pipeline => pure (.validate pipeline)
    | none => throw .wrong
  | "explain" :: arguments => do
    let given ← GivenOptions.read (compileRules ++ [.flag "json"]) arguments []
    pure (.explain (← compileOptions given) (given.lookup "json").isSome)
  | "run" :: arguments => do
    let rules := compileRules ++ [.path "lineage-out", .flag "print-results"]
    let given ← GivenOptions.read rules arguments []
    pure (.run (← compileOptions given) (given.lookup "lineage-out")
      (given.lookup "print-results").isSome)
  | ["help"] | ["help", "help"] | ["help", "validate"] | ["help", "explain"] | ["help", "run"] =>
    throw .help
  | argument :: _ =>
    throw (if argument = "--help" || argument.startsWith "-h" then .help else .wrong)
  | [] => throw .wrong

end Command

end CrossPlan
