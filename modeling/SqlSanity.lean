import SqlSanity.Text.Basic
import SqlSanity.Text.Word
import SqlSanity.Text.Upper
import SqlSanity.Text.Fold
import SqlSanity.Text.Line
import SqlSanity.Text.Occurrence
import SqlSanity.Sql.Keyword
import SqlSanity.Sql.Block
import SqlSanity.Sql.Replacement
import SqlSanity.Text.Utf8
import SqlSanity.Path.Basic
import SqlSanity.Path.Ancestors
import SqlSanity.FileSystem.Error
import SqlSanity.FileSystem.Node
import SqlSanity.FileSystem.Lookup
import SqlSanity.FileSystem.Change
import SqlSanity.Report
import SqlSanity.Validation
import SqlSanity.Source
import SqlSanity.Discovery
import SqlSanity.Scan
import SqlSanity.Rendering
import SqlSanity.Json.Basic
import SqlSanity.Json.Document
import SqlSanity.Arguments.Basic
import SqlSanity.Arguments.Parsing
import SqlSanity.Arguments.Help
import SqlSanity.Execution
import SqlSanity.Main
import SqlSanity.Proofs.Sql.Phrase
import SqlSanity.Proofs.Text.Occurrence
import SqlSanity.Proofs.Sql.Keyword
import SqlSanity.Proofs.FileSystem.Lookup
import SqlSanity.Proofs.Validation
import SqlSanity.Proofs.FileSystem.Listing
import SqlSanity.Proofs.FileSystem.Dangling
import SqlSanity.Proofs.Discovery
import SqlSanity.Proofs.Text.Utf8
import SqlSanity.Proofs.Text.Fault
import SqlSanity.Proofs.Source
import SqlSanity.Proofs.Scan.Reports
import SqlSanity.Proofs.Scan.Verdict
import SqlSanity.Proofs.Scan.Reading
import SqlSanity.Proofs.FileSystem.Locking
import SqlSanity.Proofs.Scan.Locking
import SqlSanity.Proofs.Path.Ancestors
import SqlSanity.Proofs.Path.Parent
import SqlSanity.Proofs.FileSystem.Standpoint
import SqlSanity.Proofs.Json.Grammar
import SqlSanity.Proofs.Json.Reader
import SqlSanity.Proofs.Json.Payload
import SqlSanity.Proofs.Json.Schema
import SqlSanity.Proofs.Execution
import SqlSanity.Proofs.Json.Contract
import SqlSanity.Proofs.Scan.Root
import SqlSanity.Proofs.Scan.Target
import SqlSanity.Proofs.Arguments.Grammar
import SqlSanity.Proofs.Arguments.Step
import SqlSanity.Proofs.Arguments.Parsing
import SqlSanity.Proofs.Arguments.GlobalOptions
import SqlSanity.Proofs.Sql.Replacement
import SqlSanity.Proofs.Sql.Block
import SqlSanity.Proofs.Sql.WholeWord
import SqlSanity.Proofs.Scan.Denial
import SqlSanity.Proofs.FileSystem.Creation
import SqlSanity.Proofs.FileSystem.NewEntry
import SqlSanity.Proofs.Scan.Creation
import SqlSanity.Proofs.Scan.Subtree
import SqlSanity.Proofs.Sql.Alike
import SqlSanity.Proofs.Sql.Program
import SqlSanity.Proofs.Rendering
