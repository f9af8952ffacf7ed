import StructuralEdit.Sorting
import StructuralEdit.Cut
import StructuralEdit.Text
import StructuralEdit.Point
import StructuralEdit.Edit
import StructuralEdit.Splice
import StructuralEdit.Language
import StructuralEdit.Tree
import StructuralEdit.Parser
import StructuralEdit.Faults
import StructuralEdit.Path
import StructuralEdit.FileSystem
import StructuralEdit.Template
import StructuralEdit.Pattern.Basic
import StructuralEdit.Pattern.Match
import StructuralEdit.Pattern.Search
import StructuralEdit.Query.Regex
import StructuralEdit.Query.Vocabulary
import StructuralEdit.Query.Form
import StructuralEdit.Query.Program
import StructuralEdit.Query.Requirement
import StructuralEdit.Query.Feasible
import StructuralEdit.Query.Run
import StructuralEdit.Query.Basic
import StructuralEdit.Selection
import StructuralEdit.Payload
import StructuralEdit.Document
import StructuralEdit.Cache
import StructuralEdit.Toml.Value
import StructuralEdit.Toml.Scalar
import StructuralEdit.Toml.Quoted
import StructuralEdit.Toml.Reader
import StructuralEdit.Glob
import StructuralEdit.Discovery
import StructuralEdit.LineDiff.Run
import StructuralEdit.LineDiff.Shortest
import StructuralEdit.LineDiff.Compact
import StructuralEdit.LineDiff.Unified
import StructuralEdit.Rule.Basic
import StructuralEdit.Rule.Decode
import StructuralEdit.Rule.Issue
import StructuralEdit.Rule.Load
import StructuralEdit.Rule.Apply
import StructuralEdit.Rule.Cached
import StructuralEdit.Batch
import StructuralEdit.Json
import StructuralEdit.CommandLine.Arguments
import StructuralEdit.CommandLine.Execute
import StructuralEdit.TreeTable
import StructuralEdit.Main
import StructuralEdit.Proofs.StableSort
import StructuralEdit.Proofs.CharacterBoundary
import StructuralEdit.Proofs.PointAdvance
import StructuralEdit.Proofs.PointOffset
import StructuralEdit.Proofs.Splice.Pass
import StructuralEdit.Proofs.Splice.Fate
import StructuralEdit.Proofs.Splice.QueueOrder
import StructuralEdit.Proofs.Splice.Boundaries
import StructuralEdit.Proofs.Splice.Substitution
import StructuralEdit.Proofs.Splice.Replay
import StructuralEdit.Proofs.Splice.Insertions
import StructuralEdit.Proofs.Tree.Levels
import StructuralEdit.Proofs.Tree.Places
import StructuralEdit.Proofs.Tree.Spans
import StructuralEdit.Proofs.Tree.Faults
import StructuralEdit.Proofs.Pattern.Locate
import StructuralEdit.Proofs.Query.Captures
import StructuralEdit.Proofs.Selection.Nodes
import StructuralEdit.Proofs.Selection.Ancestors
import StructuralEdit.Proofs.Document.Commit
import StructuralEdit.Proofs.Document.Session
import StructuralEdit.Proofs.Rule.Runs
import StructuralEdit.Proofs.Document.Outermost
import StructuralEdit.Proofs.Document.Scheduling
import StructuralEdit.Proofs.Document.Insertions
import StructuralEdit.Proofs.Query.DocumentOrder
import StructuralEdit.Proofs.Pattern.Scope
import StructuralEdit.Proofs.Rule.Atomic
import StructuralEdit.Proofs.Template.Placeholders
import StructuralEdit.Proofs.Template.Occurrences
import StructuralEdit.Proofs.Template.Substitution
import StructuralEdit.Proofs.Template.Scanner
import StructuralEdit.Proofs.Rule.Checked
import StructuralEdit.Proofs.Rule.SharedAncestors
import StructuralEdit.Proofs.Rule.Climbing
import StructuralEdit.Proofs.Selection.Chains
import StructuralEdit.Proofs.Rule.Flaws
import StructuralEdit.Proofs.Rule.Issues
import StructuralEdit.Proofs.FileSystem.Replacing
import StructuralEdit.Proofs.Path.ComponentOrder
import StructuralEdit.Proofs.Path.Joining
import StructuralEdit.Proofs.CachedCompilation
import StructuralEdit.Proofs.Cache.Requests
import StructuralEdit.Proofs.Rule.Cached
import StructuralEdit.Proofs.Batch.Isolation
import StructuralEdit.Proofs.Batch.Alone
import StructuralEdit.Proofs.Batch.Preview
import StructuralEdit.Proofs.Batch.Independence
import StructuralEdit.Proofs.Discovery.Reach
import StructuralEdit.Proofs.FileSystem.Walking
import StructuralEdit.Proofs.Discovery.Exact
import StructuralEdit.Proofs.Discovery.Spellings
import StructuralEdit.Proofs.CommandLine.Asking
import StructuralEdit.Proofs.CommandLine.Scope
