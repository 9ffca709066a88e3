import ModuleAtlas.CommandLine.Arguments
import ModuleAtlas.CommandLine.Command
import ModuleAtlas.CommandLine.Flag
import ModuleAtlas.CommandLine.Run
import ModuleAtlas.Document.Written
import ModuleAtlas.Document.Reader.Basic
import ModuleAtlas.Document.Reader.Numeral
import ModuleAtlas.Document.Reader.Text
import ModuleAtlas.Document.Reader.Value
import ModuleAtlas.Export.Data
import ModuleAtlas.Export.Drawing
import ModuleAtlas.Export.Format
import ModuleAtlas.Export.Json
import ModuleAtlas.Export.Outline
import ModuleAtlas.Fault
import ModuleAtlas.File.Entity
import ModuleAtlas.File.Export
import ModuleAtlas.File.Finding
import ModuleAtlas.File.Import
import ModuleAtlas.File.SourceFile
import ModuleAtlas.Glob.Basic
import ModuleAtlas.Glob.Match
import ModuleAtlas.Glob.Read
import ModuleAtlas.Graph.Basic
import ModuleAtlas.Graph.Cycle
import ModuleAtlas.Graph.Depth
import ModuleAtlas.Graph.Kinship
import ModuleAtlas.Graph.Reach
import ModuleAtlas.Graph.Route
import ModuleAtlas.Graph.Snapshot
import ModuleAtlas.Language
import ModuleAtlas.Main
import ModuleAtlas.Path.Basic
import ModuleAtlas.Path.Piece
import ModuleAtlas.Program.Basic
import ModuleAtlas.Program.Cluster
import ModuleAtlas.Program.Discovery
import ModuleAtlas.Program.DisjointSets
import ModuleAtlas.Program.Family
import ModuleAtlas.Program.Load
import ModuleAtlas.Program.Resolver
import ModuleAtlas.Program.Unused
import ModuleAtlas.Program.Usage
import ModuleAtlas.Report.Basic
import ModuleAtlas.Report.Timestamp
import ModuleAtlas.Settings.Basic
import ModuleAtlas.Settings.Read
import ModuleAtlas.Syntax.Node
import ModuleAtlas.Syntax.Comment
import ModuleAtlas.Syntax.Walk
import ModuleAtlas.Syntax.Grammar.Classes
import ModuleAtlas.Syntax.Grammar.Declarations
import ModuleAtlas.Syntax.Grammar.Expressions
import ModuleAtlas.Syntax.Grammar.Functions
import ModuleAtlas.Syntax.Grammar.Markup
import ModuleAtlas.Syntax.Grammar.Name
import ModuleAtlas.Syntax.Grammar.Statements
import ModuleAtlas.Syntax.Grammar.Types
import ModuleAtlas.Syntax.Kind
import ModuleAtlas.Syntax.Lexeme
import ModuleAtlas.Syntax.Parser
import ModuleAtlas.Syntax.Semicolon
import ModuleAtlas.Syntax.Source
import ModuleAtlas.Syntax.Tree
import ModuleAtlas.Text.Cut
import ModuleAtlas.Text.Kebab
import ModuleAtlas.Text.Letter
import ModuleAtlas.Text.LetterTable
import ModuleAtlas.Collection
import ModuleAtlas.Tree.Basic
import ModuleAtlas.Tree.Lookup
import ModuleAtlas.Proofs.Graph.Built
import ModuleAtlas.Proofs.Graph.Reach
import ModuleAtlas.Proofs.Graph.Walk
import ModuleAtlas.Proofs.Graph.Dependencies
import ModuleAtlas.Proofs.Graph.Survey.Cover
import ModuleAtlas.Proofs.Graph.Survey.Record
import ModuleAtlas.Proofs.Graph.Component
import ModuleAtlas.Proofs.Graph.Cycles
import ModuleAtlas.Proofs.Graph.Depth
import ModuleAtlas.Proofs.Graph.Chain
import ModuleAtlas.Proofs.Graph.Fringe
import ModuleAtlas.Proofs.Graph.Route
import ModuleAtlas.Proofs.Graph.Agreement
import ModuleAtlas.Proofs.Program.DisjointSets
import ModuleAtlas.Proofs.Program.Cluster
import ModuleAtlas.Proofs.Program.Unused
import ModuleAtlas.Proofs.Syntax.Quote
import ModuleAtlas.Proofs.Syntax.Sound
import ModuleAtlas.Proofs.Syntax.Rules
import ModuleAtlas.Proofs.Syntax.Tree
import ModuleAtlas.Proofs.File.Names
import ModuleAtlas.Proofs.Path.Display
import ModuleAtlas.Proofs.Path.Normal
import ModuleAtlas.Proofs.Path.Order
import ModuleAtlas.Proofs.Path.Parent
import ModuleAtlas.Proofs.Path.Solid
import ModuleAtlas.Proofs.Program.Resolver
import ModuleAtlas.Proofs.Program.Files
import ModuleAtlas.Proofs.Program.Imports
import ModuleAtlas.Proofs.Collection
import ModuleAtlas.Proofs.Graph.History
import ModuleAtlas.Proofs.Graph.OfProgram
import ModuleAtlas.Proofs.Program.Growth
import ModuleAtlas.Proofs.Graph.Loop
import ModuleAtlas.Proofs.Export.Marks
import ModuleAtlas.Proofs.Graph.Snapshot
import ModuleAtlas.Proofs.Program.Arrival
import ModuleAtlas.Proofs.Program.Candidates
import ModuleAtlas.Proofs.Program.NameForms
import ModuleAtlas.Proofs.File.Exports
import ModuleAtlas.Proofs.Syntax.Lines
import ModuleAtlas.Proofs.Syntax.Placement
import ModuleAtlas.Proofs.File.Declarations
import ModuleAtlas.Proofs.Program.Duplicates
import ModuleAtlas.Proofs.Graph.Kinship
import ModuleAtlas.Proofs.Syntax.Ends
import ModuleAtlas.Proofs.Syntax.Range
import ModuleAtlas.Proofs.Syntax.Forward
import ModuleAtlas.Proofs.Syntax.Formed
import ModuleAtlas.Proofs.Syntax.Surface
import ModuleAtlas.Proofs.File.Bindings
import ModuleAtlas.Proofs.Program.Order
import ModuleAtlas.Proofs.Program.Family
import ModuleAtlas.Proofs.Syntax.ExportForm
import ModuleAtlas.Proofs.Graph.Hubs
import ModuleAtlas.Proofs.File.Complexity
import ModuleAtlas.Proofs.File.Wrappers
import ModuleAtlas.Proofs.Graph.Labels
import ModuleAtlas.Proofs.Text.Legible
import ModuleAtlas.Proofs.Export.GraphMl
import ModuleAtlas.Proofs.Export.Dot
import ModuleAtlas.Proofs.Report.Timestamp
import ModuleAtlas.Proofs.Document.Written
import ModuleAtlas.Proofs.Export.Json
import ModuleAtlas.Proofs.Tree.Lookup
import ModuleAtlas.Proofs.Program.Discovery
import ModuleAtlas.Proofs.Program.SetCalls
import ModuleAtlas.Proofs.Program.Load
import ModuleAtlas.Proofs.Text.Kebab
import ModuleAtlas.Proofs.Program.Suggested
import ModuleAtlas.Proofs.Syntax.Visits
import ModuleAtlas.Proofs.File.Traversal
