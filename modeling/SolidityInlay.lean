import SolidityInlay.Analysis.Basic
import SolidityInlay.Analysis.Files
import SolidityInlay.Bytes.Basic
import SolidityInlay.Bytes.Hex
import SolidityInlay.Bytes.Sha256
import SolidityInlay.Bytes.Utf8
import SolidityInlay.Cache.Basic
import SolidityInlay.Command.Arguments
import SolidityInlay.Command.Paint
import SolidityInlay.Command.Run
import SolidityInlay.Compile.Artifact
import SolidityInlay.Compile.Compiler
import SolidityInlay.Compile.Diagnostic
import SolidityInlay.Compile.Key
import SolidityInlay.Compile.Normalize
import SolidityInlay.Compile.Options
import SolidityInlay.Compile.Request
import SolidityInlay.Compile.Response
import SolidityInlay.Config.Basic
import SolidityInlay.Config.Files
import SolidityInlay.Config.Load
import SolidityInlay.Config.Settings
import SolidityInlay.Declarations.Basic
import SolidityInlay.Declarations.Render
import SolidityInlay.Declarations.Write
import SolidityInlay.Discovery.Files
import SolidityInlay.Editor.Completion
import SolidityInlay.Editor.Diagnostics
import SolidityInlay.Editor.Hover
import SolidityInlay.Editor.Project
import SolidityInlay.File.Failure
import SolidityInlay.File.Path
import SolidityInlay.File.Tree
import SolidityInlay.Fold.Binding
import SolidityInlay.Fold.Evaluate
import SolidityInlay.Fold.Shape
import SolidityInlay.Fold.StringLiteral
import SolidityInlay.Fold.Template
import SolidityInlay.Glob.Match
import SolidityInlay.Host.Cursor
import SolidityInlay.Host.Grammar.Elements
import SolidityInlay.Host.Grammar.Expressions
import SolidityInlay.Host.Grammar.Input
import SolidityInlay.Host.Grammar.Lexeme
import SolidityInlay.Host.Grammar.Parse
import SolidityInlay.Host.Grammar.Rule
import SolidityInlay.Host.Grammar.Statements
import SolidityInlay.Host.Grammar.Types
import SolidityInlay.Host.Kind
import SolidityInlay.Host.Language
import SolidityInlay.Host.Located
import SolidityInlay.Host.Node
import SolidityInlay.Ignore.Pattern
import SolidityInlay.Ignore.Rules
import SolidityInlay.Json.Parser
import SolidityInlay.Json.Printer
import SolidityInlay.Json.Record
import SolidityInlay.Json.Value
import SolidityInlay.Main
import SolidityInlay.NameMap
import SolidityInlay.Number.Double
import SolidityInlay.Number.Rounded
import SolidityInlay.Number.Total
import SolidityInlay.Proofs.Cache
import SolidityInlay.Proofs.DeclarationFile
import SolidityInlay.Proofs.DirectAnalysis
import SolidityInlay.Proofs.Duplicates
import SolidityInlay.Proofs.Escapes
import SolidityInlay.Proofs.Evaluation
import SolidityInlay.Proofs.FileTree
import SolidityInlay.Proofs.FirstOccurrence
import SolidityInlay.Proofs.Grammar
import SolidityInlay.Proofs.Hex
import SolidityInlay.Proofs.HostDiagnostics
import SolidityInlay.Proofs.Json
import SolidityInlay.Proofs.Key
import SolidityInlay.Proofs.Layout
import SolidityInlay.Proofs.LineColumns
import SolidityInlay.Proofs.LineIndex
import SolidityInlay.Proofs.MappedSpans
import SolidityInlay.Proofs.Mappings
import SolidityInlay.Proofs.Memoization
import SolidityInlay.Proofs.NameMap
import SolidityInlay.Proofs.Normalization
import SolidityInlay.Proofs.Parse
import SolidityInlay.Proofs.Payload
import SolidityInlay.Proofs.PositionMap
import SolidityInlay.Proofs.Preorder
import SolidityInlay.Proofs.Project
import SolidityInlay.Proofs.ReverseMap
import SolidityInlay.Proofs.Scan
import SolidityInlay.Proofs.Scoping
import SolidityInlay.Proofs.Site
import SolidityInlay.Proofs.SourceMap
import SolidityInlay.Proofs.Spelling
import SolidityInlay.Proofs.Splice
import SolidityInlay.Proofs.Store
import SolidityInlay.Proofs.StoreHistory
import SolidityInlay.Proofs.StringGrammar
import SolidityInlay.Proofs.Text
import SolidityInlay.Proofs.Verdict
import SolidityInlay.Proofs.Visiting
import SolidityInlay.Proofs.Vlq
import SolidityInlay.Proofs.Walk
import SolidityInlay.Site.Basic
import SolidityInlay.Site.PositionMap
import SolidityInlay.Site.Scan
import SolidityInlay.SourceMap.Basic
import SolidityInlay.SourceMap.Vlq
import SolidityInlay.Store.Basic
import SolidityInlay.Store.Codec
import SolidityInlay.Store.File
import SolidityInlay.Store.Row
import SolidityInlay.Text.Basic
import SolidityInlay.Text.Classes
import SolidityInlay.Text.LineIndex
import SolidityInlay.Text.WordChars
import SolidityInlay.Toml.Parser
import SolidityInlay.Toml.Scalar
import SolidityInlay.Toml.Value
import SolidityInlay.Transform.Basic
