import SolidityCalls.Artifact.Bundle
import SolidityCalls.Artifact.Listing
import SolidityCalls.Artifact.Record
import SolidityCalls.Artifact.Spec
import SolidityCalls.Artifact.Validation
import SolidityCalls.CommandLine.Grammar
import SolidityCalls.CommandLine.Help
import SolidityCalls.CommandLine.Invocation
import SolidityCalls.CommandLine.Run
import SolidityCalls.CommandLine.Token
import SolidityCalls.Config
import SolidityCalls.Contract
import SolidityCalls.Data.Binary64
import SolidityCalls.Data.OrderedMap
import SolidityCalls.Data.Value
import SolidityCalls.Discover
import SolidityCalls.Failure
import SolidityCalls.FileSystem.Basic
import SolidityCalls.FileSystem.Edit
import SolidityCalls.FileSystem.Resolve
import SolidityCalls.Glob
import SolidityCalls.Host
import SolidityCalls.Ignore.Regex
import SolidityCalls.Ignore.Rule
import SolidityCalls.Import
import SolidityCalls.ImportGraph
import SolidityCalls.Json.Layout
import SolidityCalls.Json.Reader
import SolidityCalls.Json.Writer
import SolidityCalls.Link.Extract
import SolidityCalls.Link.Profile
import SolidityCalls.Link.Registry
import SolidityCalls.Link.Resolution
import SolidityCalls.Link.Sources
import SolidityCalls.Link.Universe
import SolidityCalls.Log
import SolidityCalls.Main
import SolidityCalls.Path
import SolidityCalls.Project
import SolidityCalls.Proofs.Artifact.Agreement
import SolidityCalls.Proofs.Artifact.CallId
import SolidityCalls.Proofs.Artifact.Difference
import SolidityCalls.Proofs.Artifact.DisplayedCycles
import SolidityCalls.Proofs.Artifact.ImportCycles
import SolidityCalls.Proofs.Artifact.LineMessages
import SolidityCalls.Proofs.Artifact.Listing
import SolidityCalls.Proofs.Artifact.ReadBack
import SolidityCalls.Proofs.Artifact.Strictness
import SolidityCalls.Proofs.Artifact.Target
import SolidityCalls.Proofs.Artifact.TargetForm
import SolidityCalls.Proofs.Artifact.Validity
import SolidityCalls.Proofs.Artifact.WrittenRecords
import SolidityCalls.Proofs.CommandLine.Verify
import SolidityCalls.Proofs.Data.OrderedMap
import SolidityCalls.Proofs.Data.Outcome
import SolidityCalls.Proofs.Data.Sorted
import SolidityCalls.Proofs.Discover.Failures
import SolidityCalls.Proofs.Discover.Listing
import SolidityCalls.Proofs.Discover.Search
import SolidityCalls.Proofs.FileSystem.Edit
import SolidityCalls.Proofs.FileSystem.Following
import SolidityCalls.Proofs.FileSystem.Growth
import SolidityCalls.Proofs.FileSystem.Keeps
import SolidityCalls.Proofs.FileSystem.Outline
import SolidityCalls.Proofs.FileSystem.Reordered
import SolidityCalls.Proofs.FileSystem.Resolved
import SolidityCalls.Proofs.FileSystem.Straight
import SolidityCalls.Proofs.FileSystem.Walk
import SolidityCalls.Proofs.Host.Failures
import SolidityCalls.Proofs.Host.PathLength
import SolidityCalls.Proofs.Ignore.Failures
import SolidityCalls.Proofs.ImportGraph.Cycles
import SolidityCalls.Proofs.ImportGraph.Edges
import SolidityCalls.Proofs.ImportGraph.Relabelled
import SolidityCalls.Proofs.ImportGraph.Search
import SolidityCalls.Proofs.Json.OneLine
import SolidityCalls.Proofs.Json.RoundTrip
import SolidityCalls.Proofs.Json.Token
import SolidityCalls.Proofs.Link.Callees
import SolidityCalls.Proofs.Link.ClosingOrder
import SolidityCalls.Proofs.Link.Closure
import SolidityCalls.Proofs.Link.Invocations
import SolidityCalls.Proofs.Link.Isolation
import SolidityCalls.Proofs.Link.MemberArguments
import SolidityCalls.Proofs.Link.Overloads
import SolidityCalls.Proofs.Link.Passes
import SolidityCalls.Proofs.Link.Relinking
import SolidityCalls.Proofs.Link.SharedRegistry
import SolidityCalls.Proofs.Link.SyntaxErrors
import SolidityCalls.Proofs.Link.Termination
import SolidityCalls.Proofs.Link.Traversal
import SolidityCalls.Proofs.Link.UnresolvedCalls
import SolidityCalls.Proofs.Path.RoundTrip
import SolidityCalls.Proofs.Project.AfterStore
import SolidityCalls.Proofs.Project.ConfigurationFailures
import SolidityCalls.Proofs.Project.EntryOrder
import SolidityCalls.Proofs.Project.Fresh
import SolidityCalls.Proofs.Project.Generate
import SolidityCalls.Proofs.Project.OutputDirectory
import SolidityCalls.Proofs.Project.Pruning
import SolidityCalls.Proofs.Project.Rediscovery
import SolidityCalls.Proofs.Project.Regenerate
import SolidityCalls.Proofs.Project.SourceFailures
import SolidityCalls.Proofs.Project.Store
import SolidityCalls.Proofs.Resolution.Composition
import SolidityCalls.Proofs.Resolution.InPlace
import SolidityCalls.Proofs.Resolution.Linearization
import SolidityCalls.Proofs.Resolution.Reachability
import SolidityCalls.Proofs.Resolution.Rearrangement
import SolidityCalls.Proofs.Resolution.TwoRegistries
import SolidityCalls.Proofs.SyntaxTree.Faults
import SolidityCalls.Proofs.SyntaxTree.Places
import SolidityCalls.Proofs.SyntaxTree.TypeLabels
import SolidityCalls.Proofs.Text.Lines
import SolidityCalls.Proofs.Text.Tokens
import SolidityCalls.Proofs.Text.Utf8
import SolidityCalls.Schema.Contract
import SolidityCalls.Schema.Integer
import SolidityCalls.Schema.Issue
import SolidityCalls.Schema.Reader
import SolidityCalls.Snapshot
import SolidityCalls.SyntaxTree.Declaration
import SolidityCalls.SyntaxTree.Expression
import SolidityCalls.SyntaxTree.Fault
import SolidityCalls.SyntaxTree.Node
import SolidityCalls.Text.Character
import SolidityCalls.Text.DecimalDigit
import SolidityCalls.Text.Lines
import SolidityCalls.Text.PrintableRanges
import SolidityCalls.Text.Quoted
import SolidityCalls.Text.Utf8
import SolidityCalls.Text.WordRanges
import SolidityCalls.Toml.Document
import SolidityCalls.Toml.Reader
import SolidityCalls.Toml.Scalar
import SolidityCalls.TypeLabel
