import GraphConformance.Text.Alphanumeric
import GraphConformance.Text.Lowercase
import GraphConformance.Text.WhiteSpace
import GraphConformance.Text.Decimal
import GraphConformance.Text.Split
import GraphConformance.Distinct
import GraphConformance.Table
import GraphConformance.Term
import GraphConformance.Store.Lists
import GraphConformance.Turtle.Grammar
import GraphConformance.Json.Print
import GraphConformance.Failure
import GraphConformance.Report.Conversion
import GraphConformance.Json.Read
import GraphConformance.Expression.Display
import GraphConformance.Expression.Reading
import GraphConformance.Knowledge.Subsumption
import GraphConformance.Knowledge.Consistency
import GraphConformance.Knowledge.Imports
import GraphConformance.Profile
import GraphConformance.Mapping.Kind
import GraphConformance.Mapping.Search
import GraphConformance.Evidence.Translator
import GraphConformance.Conformance.Pass
import GraphConformance.Toml.Value
import GraphConformance.Text.Radix
import GraphConformance.Text.Numeral
import GraphConformance.Toml.Lexical
import GraphConformance.Toml.Number
import GraphConformance.Toml.Read
import GraphConformance.Toml.Write
import GraphConformance.Settings.Read
import GraphConformance.Settings.Write
import GraphConformance.Settings.Overrides
import GraphConformance.Conformance.Output
import GraphConformance.File.Tree
import GraphConformance.Main
import GraphConformance.Proofs.Mapping.Assignment
import GraphConformance.Proofs.Store.Queries
import GraphConformance.Proofs.Expression.Interpretation
import GraphConformance.Proofs.Expression.Reading
import GraphConformance.Proofs.Expression.Encoding
import GraphConformance.Proofs.Knowledge.Closure
import GraphConformance.Proofs.Knowledge.Derivation
import GraphConformance.Proofs.Knowledge.Soundness
import GraphConformance.Proofs.Evidence.Round
import GraphConformance.Proofs.Evidence.Translation
import GraphConformance.Proofs.Evidence.Memory
import GraphConformance.Proofs.Evidence.ClosedWorld
import GraphConformance.Proofs.Evidence.Depth
import GraphConformance.Proofs.Evidence.Acyclic
import GraphConformance.Proofs.Evidence.History
import GraphConformance.Proofs.Evidence.Evaluation
import GraphConformance.Proofs.Evidence.Agreement
import GraphConformance.Proofs.Conformance.Steps
import GraphConformance.Proofs.Mapping.Pairs
import GraphConformance.Proofs.Conformance.Acceptance
import GraphConformance.Proofs.Conformance.Rollback
import GraphConformance.Proofs.Conformance.Contents
import GraphConformance.Proofs.Knowledge.Consistency
import GraphConformance.Proofs.Conformance.Skipped
import GraphConformance.Proofs.Conformance.Lockstep
import GraphConformance.Proofs.Conformance.Graphs
import GraphConformance.Proofs.Evidence.Provenance
import GraphConformance.Proofs.Knowledge.Decision
import GraphConformance.Proofs.Knowledge.Histories
import GraphConformance.Proofs.Conformance.Sequence
import GraphConformance.Proofs.Knowledge.Profiles
import GraphConformance.Proofs.Evidence.Details
import GraphConformance.Proofs.Evidence.Violations
import GraphConformance.Proofs.Knowledge.Questions
import GraphConformance.Proofs.Conformance.Rejection
import GraphConformance.Proofs.Turtle.Tokens
import GraphConformance.Proofs.Turtle.RoundTrip
import GraphConformance.Proofs.Conformance.OutputConsistency
import GraphConformance.Proofs.Evidence.Termination
import GraphConformance.Proofs.Store.Operations
import GraphConformance.Proofs.Turtle.Rests
import GraphConformance.Proofs.Turtle.Concatenation
import GraphConformance.Proofs.Renaming.Stores
import GraphConformance.Proofs.Renaming.Knowledge
import GraphConformance.Proofs.Renaming.Evidence
import GraphConformance.Proofs.Renaming.Mapping
import GraphConformance.Proofs.Renaming.Conformance
import GraphConformance.Proofs.Renaming.Numbering
import GraphConformance.Proofs.Mapping.Precedence
import GraphConformance.Proofs.Mapping.Strictness
import GraphConformance.Proofs.Evidence.Origin
import GraphConformance.Proofs.Evidence.AnonymousTypes
import GraphConformance.Proofs.Evidence.Finality
import GraphConformance.Proofs.Knowledge.Unfolding
import GraphConformance.Proofs.Knowledge.UnfoldedProfiles
import GraphConformance.Proofs.Knowledge.Inconsistency
import GraphConformance.Proofs.Knowledge.Imports
import GraphConformance.Proofs.Turtle.Quoting
import GraphConformance.Proofs.Turtle.Twins
import GraphConformance.Proofs.Turtle.TwinTokens
import GraphConformance.Proofs.Turtle.TwinEntries
import GraphConformance.Proofs.Turtle.Keywords
import GraphConformance.Proofs.Iri.Resolution
import GraphConformance.Proofs.Turtle.Mentions
import GraphConformance.Proofs.Turtle.Bases
import GraphConformance.Proofs.Turtle.Nodes
import GraphConformance.Proofs.Store.Chains
import GraphConformance.Proofs.Turtle.Collections
import GraphConformance.Proofs.Turtle.Positions
import GraphConformance.Proofs.Settings.Overrides
import GraphConformance.Proofs.Knowledge.FollowedEdges
import GraphConformance.Proofs.Report.Failures
import GraphConformance.Proofs.Turtle.WellFormed
import GraphConformance.Proofs.Knowledge.ToldChains
import GraphConformance.Proofs.Knowledge.ReducedExpressions
