import ForwardDecl.Command.Basic
import ForwardDecl.Command.Flag
import ForwardDecl.Command.Help
import ForwardDecl.Config.Basic
import ForwardDecl.Config.Decoding
import ForwardDecl.Config.Document
import ForwardDecl.Config.Load
import ForwardDecl.Conversion.Basic
import ForwardDecl.Conversion.Pass
import ForwardDecl.Diff.Matching
import ForwardDecl.Diff.Unified
import ForwardDecl.Docstring
import ForwardDecl.Edit.Check
import ForwardDecl.Edit.Desk
import ForwardDecl.Edit.File
import ForwardDecl.Edit.Tree
import ForwardDecl.Error
import ForwardDecl.FileSystem.Basic
import ForwardDecl.FileSystem.Node
import ForwardDecl.Ignore.Basic
import ForwardDecl.Ignore.Map
import ForwardDecl.Json
import ForwardDecl.Main
import ForwardDecl.Marker
import ForwardDecl.Mode
import ForwardDecl.Path
import ForwardDecl.Proofs.Adding
import ForwardDecl.Proofs.Endings
import ForwardDecl.Proofs.LineKinds
import ForwardDecl.Proofs.Lines
import ForwardDecl.Proofs.Losses
import ForwardDecl.Proofs.Removing
import ForwardDecl.Proofs.RoundTrip
import ForwardDecl.Proofs.Toggling
import ForwardDecl.Report
import ForwardDecl.Scan
import ForwardDecl.SupportModule
import ForwardDecl.Text.Base64
import ForwardDecl.Text.Blank
import ForwardDecl.Text.Lines
import ForwardDecl.Text.Lossy
import ForwardDecl.Text.Printable
import ForwardDecl.Text.Quoted
import ForwardDecl.Tool
import ForwardDecl.Trace
import ForwardDecl.Yaml.Cursor
import ForwardDecl.Yaml.Lexeme.Block
import ForwardDecl.Yaml.Lexeme.Gap
import ForwardDecl.Yaml.Lexeme.Plain
import ForwardDecl.Yaml.Lexeme.Quoted
import ForwardDecl.Yaml.Lexeme.Tag
import ForwardDecl.Yaml.Node
import ForwardDecl.Yaml.Reader
import ForwardDecl.Yaml.Scalar
import ForwardDecl.Yaml.Source
import ForwardDecl.Yaml.Timestamp
import ForwardDecl.Yaml.Token
import ForwardDecl.Proofs.Trees
import ForwardDecl.Proofs.Paths
import ForwardDecl.Proofs.Locating
import ForwardDecl.Proofs.FileEdits
import ForwardDecl.Proofs.Findings
import ForwardDecl.Proofs.TreeRuns
import ForwardDecl.Proofs.Installing
import ForwardDecl.Proofs.Preparing
import ForwardDecl.Proofs.TreeEdits
import ForwardDecl.Proofs.TreeRoundTrip
import ForwardDecl.Proofs.DryRuns
import ForwardDecl.Proofs.Confinement
import ForwardDecl.Proofs.LinkedRoots
import ForwardDecl.Proofs.ScanOrder
import ForwardDecl.Proofs.Postconditions
import ForwardDecl.Proofs.Commands
import ForwardDecl.Proofs.Directions
import ForwardDecl.Proofs.Refusals
import ForwardDecl.Proofs.Cancelling
import ForwardDecl.Proofs.IgnoreLists
import ForwardDecl.Proofs.Docstrings
import ForwardDecl.Proofs.ImportLines
import ForwardDecl.Proofs.ToolCalls
import ForwardDecl.Proofs.CommandLines
import ForwardDecl.Proofs.TreeRequests
import ForwardDecl.Proofs.FileLists
import ForwardDecl.Proofs.Conservation
import ForwardDecl.Proofs.Declaring
import ForwardDecl.Proofs.StatementLines
import ForwardDecl.Proofs.ImportPlacement
import ForwardDecl.Proofs.Repeating
import ForwardDecl.Proofs.Malformed
import ForwardDecl.Proofs.Emptying
import ForwardDecl.Proofs.IgnoreSets
import ForwardDecl.Proofs.HeadLines
import ForwardDecl.Proofs.SingleFiles
import ForwardDecl.Proofs.ScanPaths
import ForwardDecl.Proofs.Accounting
import ForwardDecl.Proofs.LineEnds
import ForwardDecl.Proofs.IgnoreWords
import ForwardDecl.Proofs.NamedPaths
import ForwardDecl.Proofs.ReadingBytes
