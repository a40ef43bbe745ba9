import Drydock.CommandLine.Basic
import Drydock.CommandLine.Program
import Drydock.CommandLine.Reader
import Drydock.Dockerfile.Assignments
import Drydock.Dockerfile.BuildKit
import Drydock.Dockerfile.Diagnostic
import Drydock.Dockerfile.ExecForm
import Drydock.Dockerfile.Heredoc
import Drydock.Dockerfile.Instruction
import Drydock.Dockerfile.LogicalLine
import Drydock.Dockerfile.Parse
import Drydock.Dockerfile.Precheck
import Drydock.Host.Basic
import Drydock.Host.Memory
import Drydock.Json.Basic
import Drydock.Json.Decode
import Drydock.Json.Reader
import Drydock.Json.Writer
import Drydock.Linter
import Drydock.Log
import Drydock.Main
import Drydock.Path
import Drydock.Report.Basic
import Drydock.Report.Finding
import Drydock.Report.Format
import Drydock.Report.Level
import Drydock.Report.Terminal
import Drydock.Report.Wire
import Drydock.Rule.Argument
import Drydock.Rule.Basic
import Drydock.Rule.Catalog
import Drydock.Rule.Copy
import Drydock.Rule.LineScan
import Drydock.Rule.Secret
import Drydock.Run
import Drydock.Settings
import Drydock.Text.Basic
import Drydock.Text.Blank
import Drydock.Text.ControlSequence
import Drydock.Text.Letter
import Drydock.Text.Lines
import Drydock.Text.Utf8
import Drydock.Text.Word
import Drydock.Time.Instant
import Drydock.Time.Rfc3339
import Drydock.Toml.Decode
import Drydock.Toml.Document
import Drydock.Toml.Scalar
import Drydock.Toml.Token
import Drydock.Toml.Value
import Drydock.Validator
import Drydock.Proofs.LogicalLine
import Drydock.Proofs.KeywordLine
import Drydock.Proofs.Precheck
import Drydock.Proofs.KeywordOrder
import Drydock.Proofs.Assignments
import Drydock.Proofs.Secret
import Drydock.Proofs.ExecForm
import Drydock.Proofs.Printing
import Drydock.Proofs.ReportHistory
import Drydock.Proofs.RootUser
import Drydock.Proofs.JsonText
import Drydock.Proofs.ReportWire
import Drydock.Proofs.HeredocBody
import Drydock.Proofs.LineAgreement
import Drydock.Proofs.Block
import Drydock.Proofs.JoinedItems
import Drydock.Proofs.Installation
import Drydock.Proofs.AssignmentLayout
import Drydock.Proofs.SecretScan
import Drydock.Proofs.ScanAgreement
import Drydock.Proofs.SilentReport
import Drydock.Proofs.LineEndings
import Drydock.Proofs.LinterMerge
import Drydock.Proofs.Concatenation
import Drydock.Proofs.CommandChain
import Drydock.Proofs.ListSyntax
import Drydock.Proofs.SecretName
import Drydock.Proofs.Words
import Drydock.Proofs.Scoring
import Drydock.Proofs.FoldedSearch
import Drydock.Proofs.MountOption
import Drydock.Proofs.MountLine
import Drydock.Proofs.CopyOrder
import Drydock.Proofs.CopyForm
import Drydock.Proofs.CopyLine
import Drydock.Proofs.BaseImage
import Drydock.Proofs.AssignmentBytes
import Drydock.Proofs.LinePartition
import Drydock.Proofs.TerminalColor
import Drydock.Proofs.SettingsOverride
