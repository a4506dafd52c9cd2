import LiveSyntax.Text.Basic
import LiveSyntax.Text.Offset
import LiveSyntax.Text.Span
import LiveSyntax.Text.Position
import LiveSyntax.Text.Coordinates
import LiveSyntax.Text.Utf8
import LiveSyntax.Text.CharTable
import LiveSyntax.Text.Blank
import LiveSyntax.Text.Letter
import LiveSyntax.Text.CaseFold
import LiveSyntax.Text.Unprintable
import LiveSyntax.Text.Quoted
import LiveSyntax.Change.Edit
import LiveSyntax.Change.Replay
import LiveSyntax.Tree.Arena
import LiveSyntax.Tree.Basic
import LiveSyntax.Tree.NameTable
import LiveSyntax.Tree.Builder
import LiveSyntax.Tree.Inspect
import LiveSyntax.Selection.Covering
import LiveSyntax.Selection.Relatives
import LiveSyntax.Selection.Cousins
import LiveSyntax.Selection.Command
import LiveSyntax.Outline.Kind
import LiveSyntax.Outline.Symbol
import LiveSyntax.Outline.Pattern
import LiveSyntax.Json.Value
import LiveSyntax.Json.Reader
import LiveSyntax.Json.Number
import LiveSyntax.Regex.Basic
import LiveSyntax.Regex.Escape
import LiveSyntax.Regex.Bracket
import LiveSyntax.Regex.Pattern
import LiveSyntax.Language.BuiltinScopes
import LiveSyntax.Language.Scope
import LiveSyntax.Language.File
import LiveSyntax.Language.IgnoreList
import LiveSyntax.Language.Settings
import LiveSyntax.Language.Registry
import LiveSyntax.Parse.Tree
import LiveSyntax.Parse.Error
import LiveSyntax.Parse.Parser
import LiveSyntax.Parse.Engine
import LiveSyntax.Outline.Capture
import LiveSyntax.Outline.Inheritance
import LiveSyntax.Notify.Action
import LiveSyntax.Notify.Report
import LiveSyntax.Notify.Host
import LiveSyntax.Notify.Signal
import LiveSyntax.Store.Basic
import LiveSyntax.Store.Operation
import LiveSyntax.Proofs.Utf8
import LiveSyntax.Proofs.Positions
import LiveSyntax.Proofs.Replay
import LiveSyntax.Proofs.Builder
import LiveSyntax.Proofs.OrderedTree
import LiveSyntax.Proofs.Rounds
import LiveSyntax.Proofs.StoreSteps
import LiveSyntax.Proofs.StoreHistory
import LiveSyntax.Proofs.Linked
import LiveSyntax.Proofs.Navigation
import LiveSyntax.Proofs.Moments
import LiveSyntax.Proofs.Deliveries
import LiveSyntax.Proofs.Recency
import LiveSyntax.Proofs.ParseWalk
import LiveSyntax.Proofs.Reentrancy
import LiveSyntax.Proofs.Announcements
import LiveSyntax.Proofs.LoadedGrammars
import LiveSyntax.Proofs.Selections
import LiveSyntax.Proofs.Acceptance
import LiveSyntax.Proofs.Brackets
import LiveSyntax.Proofs.Snapshots
import LiveSyntax.Proofs.ScopeClaims
import LiveSyntax.Proofs.CoveringNodes
import LiveSyntax.Proofs.Growth
import LiveSyntax.Proofs.Shrinking
import LiveSyntax.Proofs.SiblingMoves
import LiveSyntax.Proofs.Cousins
import LiveSyntax.Proofs.InstalledGrammars
import LiveSyntax.Proofs.ManySpans
import LiveSyntax.Proofs.ChangeLaws
import LiveSyntax.Proofs.EditChains
import LiveSyntax.Proofs.CoordinateLaws
import LiveSyntax.Proofs.Containers
import LiveSyntax.Proofs.SymbolLists
import LiveSyntax.Proofs.Extraction
import LiveSyntax.Proofs.OutlineTree
import LiveSyntax.Proofs.ScopeResolution
import LiveSyntax.Proofs.ScopeOverrides
import LiveSyntax.Proofs.QueryInheritance
import LiveSyntax.Proofs.CapturedSymbols
