import CrossPlan.Bound.Basic
import CrossPlan.Bound.Builtin
import CrossPlan.Candidate
import CrossPlan.Channel.Basic
import CrossPlan.Channel.Route
import CrossPlan.Command.Basic
import CrossPlan.Command.Options
import CrossPlan.Compiler
import CrossPlan.Configuration
import CrossPlan.Count
import CrossPlan.Decimal.Binary
import CrossPlan.Decimal.Layout
import CrossPlan.Decimal.Numeral
import CrossPlan.Decimal.Shortest
import CrossPlan.Digest.Blake3
import CrossPlan.Digest.Fingerprint
import CrossPlan.Estimation.Builtin
import CrossPlan.Estimation.Cardinality
import CrossPlan.Estimation.CostModel
import CrossPlan.Estimation.Estimator
import CrossPlan.Estimation.Specification
import CrossPlan.Execution.Plan
import CrossPlan.Execution.Run
import CrossPlan.Execution.Text
import CrossPlan.Json.Reading
import CrossPlan.Json.Shape
import CrossPlan.Json.Value
import CrossPlan.Json.Writing
import CrossPlan.Kind
import CrossPlan.Lineage.Basic
import CrossPlan.Lineage.Storage
import CrossPlan.Lineage.Text
import CrossPlan.Load
import CrossPlan.Main
import CrossPlan.Pattern.Basic
import CrossPlan.Pattern.Matching
import CrossPlan.Pipeline
import CrossPlan.Plan.Basic
import CrossPlan.Plan.Text
import CrossPlan.Plan.Validity
import CrossPlan.Platform
import CrossPlan.Precedence
import CrossPlan.Predicate.Basic
import CrossPlan.Predicate.Like
import CrossPlan.Predicate.Reading
import CrossPlan.Predicate.Text
import CrossPlan.Predicate.Token
import CrossPlan.Quantity
import CrossPlan.Record
import CrossPlan.Renaming
import CrossPlan.Rule.Basic
import CrossPlan.Rule.Builtin
import CrossPlan.Selection.Assembly
import CrossPlan.Selection.Problem
import CrossPlan.Selection.Score
import CrossPlan.Selection.Search
import CrossPlan.Storage.Destination
import CrossPlan.Storage.Files
import CrossPlan.Table
import CrossPlan.Text.Blank
import CrossPlan.Yaml.Glyph
import CrossPlan.Yaml.Node
import CrossPlan.Yaml.Resolution
import CrossPlan.Yaml.Scalar
import CrossPlan.Yaml.Token
import CrossPlan.Proofs.Candidate
import CrossPlan.Proofs.Execution.Faults
import CrossPlan.Proofs.Execution.Graph
import CrossPlan.Proofs.Execution.Safety
import CrossPlan.Proofs.Channel.Routing
import CrossPlan.Proofs.Pattern.Boundary
import CrossPlan.Proofs.Pattern.Matching
import CrossPlan.Proofs.Pattern.Registration
import CrossPlan.Proofs.Plan.Construction
import CrossPlan.Proofs.Plan.Validity
import CrossPlan.Proofs.Precedence
import CrossPlan.Proofs.Predicate.Lexing
import CrossPlan.Proofs.Predicate.Grammar
import CrossPlan.Proofs.Selection.Assignment
import CrossPlan.Proofs.Selection.Solving
import CrossPlan.Proofs.Quantity
import CrossPlan.Proofs.Selection.Outcome
import CrossPlan.Proofs.Selection.Cost
import CrossPlan.Proofs.Selection.Exhaustive
import CrossPlan.Proofs.Selection.Completeness
import CrossPlan.Proofs.Selection.Greedy
import CrossPlan.Proofs.Selection.Handover
import CrossPlan.Proofs.Selection.Wiring
import CrossPlan.Proofs.Selection.Junctions
import CrossPlan.Proofs.Selection.Wires
import CrossPlan.Proofs.Results
import CrossPlan.Proofs.Execution.Simulation
import CrossPlan.Proofs.Execution.Conservation
import CrossPlan.Proofs.Execution.Remains
import CrossPlan.Proofs.Execution.Steps
import CrossPlan.Proofs.Bound.Evaluation
import CrossPlan.Proofs.Channel.Cheapest
import CrossPlan.Proofs.Channel.Content
import CrossPlan.Proofs.Estimation.Usable
import CrossPlan.Proofs.Plan.Meaning
import CrossPlan.Proofs.Selection.Building
import CrossPlan.Proofs.Compilation
import CrossPlan.Proofs.Selection.Realization
import CrossPlan.Proofs.Invariance
import CrossPlan.Proofs.Rule.Builtin
import CrossPlan.Proofs.Rule.Coverage
import CrossPlan.Proofs.Rule.Soundness
import CrossPlan.Proofs.Selection.Tasks
import CrossPlan.Proofs.Selection.Timeless
import CrossPlan.Proofs.Sequence
import CrossPlan.Proofs.Predicate.Printing
import CrossPlan.Proofs.Predicate.Wildcards
import CrossPlan.Proofs.Execution.Names
import CrossPlan.Proofs.Execution.Marks
import CrossPlan.Proofs.Execution.Tracing
import CrossPlan.Proofs.Execution.Lineage
import CrossPlan.Proofs.Plan.Calls
import CrossPlan.Proofs.Plan.Drafting
import CrossPlan.Proofs.Plan.Pipelines
import CrossPlan.Proofs.Selection.InPlace
import CrossPlan.Proofs.Selection.Consistency
import CrossPlan.Proofs.Selection.Preference
import CrossPlan.Proofs.Selection.Sharing
import CrossPlan.Proofs.Estimation.Narrowing
import CrossPlan.Proofs.Pattern.Acceptance
import CrossPlan.Proofs.Plan.Ordering
import CrossPlan.Proofs.Plan.Faults
import CrossPlan.Proofs.Decimal.Doubles
import CrossPlan.Proofs.Estimation.Cardinality
import CrossPlan.Proofs.Estimation.Commuting
import CrossPlan.Proofs.Estimation.Sizing
import CrossPlan.Proofs.Predicate.Selectivity
import CrossPlan.Proofs.Channel.Conversion
import CrossPlan.Proofs.Estimation.Interpolation
import CrossPlan.Proofs.Execution.Ordering
import CrossPlan.Proofs.Decimal.Comparing
import CrossPlan.Proofs.Predicate.Comparing
import CrossPlan.Proofs.Estimation.Caching
import CrossPlan.Proofs.Selection.Blame
import CrossPlan.Proofs.Json.Fields
import CrossPlan.Proofs.Json.Lexing
import CrossPlan.Proofs.Json.Numbers
import CrossPlan.Proofs.Json.Reading
import CrossPlan.Proofs.Json.Lines
