import Sideload.CommandLine.Arguments
import Sideload.CommandLine.Request
import Sideload.CommandLine.Run
import Sideload.Compound
import Sideload.Dataset.Basic
import Sideload.Dataset.File
import Sideload.Dataset.Shape
import Sideload.Decimal.Integer
import Sideload.Decimal.Scaled
import Sideload.Decimal.Shortest
import Sideload.Document.Assembly
import Sideload.Document.Basic
import Sideload.Document.Check
import Sideload.Document.Format
import Sideload.Entity
import Sideload.Fields
import Sideload.FileTree.Basic
import Sideload.FileTree.Disk
import Sideload.FileTree.Path
import Sideload.Finding
import Sideload.Include.Expression
import Sideload.Include.Forest
import Sideload.Include.Json
import Sideload.Include.Node
import Sideload.Include.Path
import Sideload.Json.Basic
import Sideload.Json.Number
import Sideload.Json.Pointer
import Sideload.Json.Printer
import Sideload.Json.Reader
import Sideload.Lint.Check
import Sideload.Lint.Diagnostic
import Sideload.Lint.Report
import Sideload.Lint.Text
import Sideload.Loader
import Sideload.Main
import Sideload.Proofs.CommandLine.Stages
import Sideload.Proofs.Dataset.Answers
import Sideload.Proofs.Dataset.Entries
import Sideload.Proofs.Dataset.LoadErrors
import Sideload.Proofs.Dataset.Loading
import Sideload.Proofs.Dataset.Opening
import Sideload.Proofs.Dataset.PathOrder
import Sideload.Proofs.Dataset.Projection
import Sideload.Proofs.Dataset.Relationships
import Sideload.Proofs.Dataset.Roots
import Sideload.Proofs.Dataset.RoundTrip
import Sideload.Proofs.Dataset.Shape
import Sideload.Proofs.Dataset.Spelling
import Sideload.Proofs.Dataset.Visibility
import Sideload.Proofs.Decimal.Digits
import Sideload.Proofs.Document.Check
import Sideload.Proofs.Document.Empties
import Sideload.Proofs.Document.Encounters
import Sideload.Proofs.Document.FindingPlaces
import Sideload.Proofs.Document.Format
import Sideload.Proofs.Document.Identities
import Sideload.Proofs.Document.Linkage
import Sideload.Proofs.Document.Links
import Sideload.Proofs.Document.Merging
import Sideload.Proofs.Document.Projections
import Sideload.Proofs.Document.Reachability
import Sideload.Proofs.Document.RepeatedRoots
import Sideload.Proofs.Document.Slots
import Sideload.Proofs.Fields.FirstWins
import Sideload.Proofs.Fields.Related
import Sideload.Proofs.Fields.Selection
import Sideload.Proofs.FileTree.Following
import Sideload.Proofs.FileTree.Listing
import Sideload.Proofs.FileTree.Order
import Sideload.Proofs.FileTree.Paths
import Sideload.Proofs.FileTree.Writing
import Sideload.Proofs.Include.Acceptance
import Sideload.Proofs.Include.DepthLimit
import Sideload.Proofs.Include.FirstFault
import Sideload.Proofs.Include.Grammar
import Sideload.Proofs.Include.PathOrder
import Sideload.Proofs.Include.PrefixTree
import Sideload.Proofs.Include.Readers
import Sideload.Proofs.Include.RoundTrip
import Sideload.Proofs.Include.SegmentStarts
import Sideload.Proofs.Include.Stops
import Sideload.Proofs.Include.WellFormed
import Sideload.Proofs.Json.Distinct
import Sideload.Proofs.Json.Places
import Sideload.Proofs.Json.Reordered
import Sideload.Proofs.Json.RoundTrip
import Sideload.Proofs.Json.Scalars
import Sideload.Proofs.Json.Storable
import Sideload.Proofs.Json.Walks
import Sideload.Proofs.Lint.Directories
import Sideload.Proofs.Lint.Duplicates
import Sideload.Proofs.Lint.ErrorFree
import Sideload.Proofs.Lint.MissingTargets
import Sideload.Proofs.Lint.Totals
import Sideload.Proofs.Lists.FirstOccurrences
import Sideload.Proofs.Lists.Fronts
import Sideload.Proofs.Lists.Related
import Sideload.Proofs.Resolution.Agreement
import Sideload.Proofs.Resolution.Alike
import Sideload.Proofs.Resolution.Batches
import Sideload.Proofs.Resolution.Calls
import Sideload.Proofs.Resolution.Columns
import Sideload.Proofs.Resolution.Dialogue
import Sideload.Proofs.Resolution.Expansion
import Sideload.Proofs.Resolution.Failures
import Sideload.Proofs.Resolution.FixedAnswers
import Sideload.Proofs.Resolution.Loadable
import Sideload.Proofs.Resolution.Loaded
import Sideload.Proofs.Resolution.Places
import Sideload.Proofs.Resolved.Occurrences
import Sideload.Proofs.Resolved.Outline
import Sideload.Proofs.Resolved.Walk
import Sideload.Proofs.Schema.Validity
import Sideload.Proofs.Text.Lossy
import Sideload.Registry
import Sideload.Resolution
import Sideload.Resolved
import Sideload.Schema
import Sideload.Source
import Sideload.Text.Blank
import Sideload.Text.Bytes
import Sideload.Text.Hidden
import Sideload.Text.Lossy
import Sideload.Text.Quoted
