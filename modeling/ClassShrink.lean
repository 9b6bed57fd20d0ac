import ClassShrink.Ascending
import ClassShrink.CommandLine.Arguments
import ClassShrink.CommandLine.Run
import ClassShrink.Config.Basic
import ClassShrink.Config.Document
import ClassShrink.Config.KeepPattern
import ClassShrink.Config.Load
import ClassShrink.Decimal.Basic
import ClassShrink.Decimal.Shortest
import ClassShrink.Error
import ClassShrink.FileTree
import ClassShrink.Graph.Construction
import ClassShrink.Graph.Draft
import ClassShrink.Graph.Program
import ClassShrink.Graph.Resolution
import ClassShrink.Graph.View
import ClassShrink.Hierarchy.Dispatch
import ClassShrink.Hierarchy.Lookup
import ClassShrink.Hierarchy.Parents
import ClassShrink.Json.Document
import ClassShrink.Json.Layout
import ClassShrink.Json.Number
import ClassShrink.Json.Record
import ClassShrink.Json.Token
import ClassShrink.Json.Value
import ClassShrink.Keep.Roots
import ClassShrink.Keep.Rule
import ClassShrink.Main
import ClassShrink.Mark.Basic
import ClassShrink.Mark.Successors
import ClassShrink.Override.Index
import ClassShrink.Override.Pairs
import ClassShrink.Program.Basic
import ClassShrink.Program.Document
import ClassShrink.Record
import ClassShrink.Report.Basic
import ClassShrink.Report.Listing
import ClassShrink.Report.Style
import ClassShrink.Report.Terminal
import ClassShrink.Session
import ClassShrink.Shrink
import ClassShrink.Shrink.Log
import ClassShrink.Sweep.Basic
import ClassShrink.Sweep.Integrity
import ClassShrink.Sweep.Report
import ClassShrink.Symbol
import ClassShrink.Table
import ClassShrink.Text.Blank
import ClassShrink.Text.CodePoint
import ClassShrink.Text.Search
import ClassShrink.Toml.Date
import ClassShrink.Toml.Document
import ClassShrink.Toml.Number
import ClassShrink.Toml.Token
import ClassShrink.Toml.Value
import ClassShrink.Worklist
import ClassShrink.Yaml.Document
import ClassShrink.Yaml.Scalar
import ClassShrink.Yaml.Token
import ClassShrink.Yaml.Value
import ClassShrink.Proofs.Tables
import ClassShrink.Proofs.Blueprint
import ClassShrink.Proofs.Layout
import ClassShrink.Proofs.Resolution
import ClassShrink.Proofs.Construction
import ClassShrink.Proofs.Mark
import ClassShrink.Proofs.Interleaving
import ClassShrink.Proofs.Hierarchy
import ClassShrink.Proofs.Dispatch
import ClassShrink.Proofs.Override
import ClassShrink.Proofs.Graph
import ClassShrink.Proofs.Retention
import ClassShrink.Proofs.Lookup
import ClassShrink.Proofs.CallSites
import ClassShrink.Proofs.Correspondence
import ClassShrink.Proofs.Bindings
import ClassShrink.Proofs.VirtualDispatch
import ClassShrink.Proofs.Needs
import ClassShrink.Proofs.Roots
import ClassShrink.Proofs.Pass
import ClassShrink.Proofs.KeepUnion
import ClassShrink.Proofs.Restriction
import ClassShrink.Proofs.Overriding
import ClassShrink.Proofs.SecondPass
import ClassShrink.Proofs.Rearrangement
import ClassShrink.Proofs.DeclarationOrder
import ClassShrink.Proofs.Integrity
import ClassShrink.Proofs.OverridePairs
import ClassShrink.Proofs.FileTree
import ClassShrink.Proofs.FailedRuns
import ClassShrink.Proofs.Settled
import ClassShrink.Proofs.WrittenProgram
import ClassShrink.Proofs.JsonNumber
import ClassShrink.Proofs.JsonText
import ClassShrink.Proofs.DocumentNumbers
import ClassShrink.Proofs.RoundTrip
import ClassShrink.Proofs.BreadthFirst
import ClassShrink.Proofs.MemberSearch
import ClassShrink.Proofs.Precedence
import ClassShrink.Proofs.OverlookedSupertypes
import ClassShrink.Proofs.DeclaredEdges
import ClassShrink.Proofs.SweptProgram
import ClassShrink.Proofs.Accounting
import ClassShrink.Proofs.ConstructionFaults
import ClassShrink.Proofs.OverrideRelation
import ClassShrink.Proofs.Representation
import ClassShrink.Proofs.LeastViolation
import ClassShrink.Proofs.MergeOrder
import ClassShrink.Proofs.MemberKeys
import ClassShrink.Proofs.LibraryCallbacks
import ClassShrink.Proofs.TextParts
import ClassShrink.Proofs.KeepForms
import ClassShrink.Proofs.RemovalListing
import ClassShrink.Proofs.StaticInitializers
import ClassShrink.Proofs.Sweep
