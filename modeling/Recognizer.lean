import Recognizer.Builder.Basic
import Recognizer.Builder.Scoped
import Recognizer.Condition
import Recognizer.Condition.Json
import Recognizer.Config
import Recognizer.Edge.Basic
import Recognizer.Edge.Matching
import Recognizer.Edge.Record
import Recognizer.Edge.SetTable
import Recognizer.Edge.Text
import Recognizer.Index
import Recognizer.Interval
import Recognizer.Interval.Json
import Recognizer.Json.Compact
import Recognizer.Json.Field
import Recognizer.Json.Value
import Recognizer.Names.FirstPosition
import Recognizer.Names.RuleNames
import Recognizer.Names.Table
import Recognizer.Scope.Guarded
import Recognizer.Scope.Program
import Recognizer.SymbolSet.Basic
import Recognizer.SymbolSet.Bisection
import Recognizer.SymbolSet.Complement
import Recognizer.SymbolSet.Text
import Recognizer.Text.CodePoint
import Recognizer.Text.Decimal
import Recognizer.Text.Highlight
import Recognizer.Text.Sequence
import Recognizer.Text.Whitespace
import Recognizer.Token
import Recognizer.Token.Json
import Recognizer.Total
import Recognizer.Trace.Hook
import Recognizer.Trace.Log
import Recognizer.Tree.Ancestry
import Recognizer.Tree.Arena
import Recognizer.Tree.Description
import Recognizer.Tree.Edit
import Recognizer.Tree.Fault
import Recognizer.Tree.Label
import Recognizer.Tree.Node
import Recognizer.Tree.Snapshot
import Recognizer.Tree.Text
import Recognizer.Tree.Unfolding
import Recognizer.Tree.Walk
import Recognizer.Proofs.Tree.Outcome
import Recognizer.Proofs.Tree.Path
import Recognizer.Proofs.Tree.Traversal
import Recognizer.Proofs.Tree.Forest
import Recognizer.Proofs.Builder.Step
import Recognizer.Proofs.Builder.Run
import Recognizer.Proofs.Tree.Acyclic
import Recognizer.Proofs.Edge.RoundTrip
import Recognizer.Proofs.Edge.WriteBack
import Recognizer.Proofs.SymbolSet.Bisection
import Recognizer.Proofs.SymbolSet.Insertion
import Recognizer.Proofs.SymbolSet.Members
import Recognizer.Proofs.SymbolSet.Recipe
import Recognizer.Proofs.Tree.Lineage
import Recognizer.Proofs.Tree.ParentLink
import Recognizer.Proofs.Builder.Stack
import Recognizer.Proofs.Tree.Yield
import Recognizer.Proofs.Builder.Yield
import Recognizer.Proofs.Tree.Counterpart
import Recognizer.Proofs.Builder.WithoutTree
import Recognizer.Proofs.SymbolSet.Extensionality
import Recognizer.Proofs.SymbolSet.Complement
import Recognizer.Proofs.Tree.Visits
import Recognizer.Proofs.Tree.Renumbering
import Recognizer.Proofs.Builder.Speculation
import Recognizer.Proofs.Builder.Spans
import Recognizer.Proofs.Tree.Outline
import Recognizer.Proofs.Tree.Growth
import Recognizer.Proofs.Tree.Residue
import Recognizer.Proofs.Builder.Narration
import Recognizer.Proofs.Scope.Course
import Recognizer.Proofs.Scope.ExitActions
import Recognizer.Proofs.Builder.ScopeEnd
import Recognizer.Proofs.Names.FirstInsertion
import Recognizer.Proofs.Json.ReadBack
import Recognizer.Proofs.Edge.Matching
import Recognizer.Proofs.Tree.Renderings
import Recognizer.Proofs.Builder.Relabelling
import Recognizer.Proofs.Text.Delimited
import Recognizer.Proofs.Tree.Unambiguity
import Recognizer.Proofs.Json.CompactText
import Recognizer.Proofs.Tree.SnapshotText
import Recognizer.Proofs.Names.Resolution
import Recognizer.Proofs.Text.Display
import Recognizer.Proofs.Trace.Lines
import Recognizer.Proofs.SymbolSet.Merging
import Recognizer.Proofs.SymbolSet.Cardinality
import Recognizer.Proofs.SymbolSet.Text
import Recognizer.Proofs.Edge.Rejection
import Recognizer.Proofs.Text.Whitespace
import Recognizer.Proofs.Text.OneLine
