import LintGate.Check
import LintGate.Check.Custom
import LintGate.CommandLine
import LintGate.Decimal.Binary64
import LintGate.Decimal.Shortest
import LintGate.Detection
import LintGate.Digest.Sha1
import LintGate.Digest.Sha256
import LintGate.Document
import LintGate.Document.OfJson
import LintGate.Document.Toml
import LintGate.Document.Toml.Scalar
import LintGate.Document.Yaml
import LintGate.Document.Yaml.Character
import LintGate.Document.Yaml.Token
import LintGate.Fault
import LintGate.FileTree
import LintGate.FileTree.Walk
import LintGate.Finding
import LintGate.Git.Index
import LintGate.Git.Repository
import LintGate.Git.Status
import LintGate.Glob
import LintGate.Glob.Reader
import LintGate.Hook
import LintGate.Ignore
import LintGate.Json
import LintGate.Json.Printer
import LintGate.Json.Reader
import LintGate.Language
import LintGate.Ledger
import LintGate.Lock
import LintGate.Main
import LintGate.OptOut
import LintGate.Path
import LintGate.Process.Capture
import LintGate.Process.Execution
import LintGate.Process.Invocation
import LintGate.Process.Job
import LintGate.Process.Machine
import LintGate.Process.StandardFiles
import LintGate.Process.Utility
import LintGate.Process.Utility.BasicRegex
import LintGate.Process.Utility.Files
import LintGate.Process.Utility.Format
import LintGate.Process.Utility.Task
import LintGate.Process.Utility.Test
import LintGate.Process.Utility.Text
import LintGate.Program
import LintGate.Proofs.Process.History
import LintGate.Proofs.Verification.Attempts
import LintGate.Proofs.Verification.Recovery
import LintGate.Proofs.Verification.Retries
import LintGate.Proofs.Verification.Tallies
import LintGate.Report.Colour
import LintGate.Report.Human
import LintGate.Report.Structured
import LintGate.Run
import LintGate.SearchPath
import LintGate.Selection
import LintGate.Settings
import LintGate.Settings.Decode
import LintGate.Settings.Discovery
import LintGate.Shell.Arithmetic
import LintGate.Shell.Evaluation
import LintGate.Shell.Fork
import LintGate.Shell.Pattern
import LintGate.Shell.Reader
import LintGate.Shell.State
import LintGate.Shell.Syntax
import LintGate.Shell.Word
import LintGate.SystemError
import LintGate.Text.Ascii
import LintGate.Text.Blank
import LintGate.Text.DecimalDigit
import LintGate.Text.Pieces
import LintGate.Text.Raw
import LintGate.Text.Utf8
import LintGate.Tool.Binding
import LintGate.Tool.Catalog
import LintGate.Tool.Recovery
import LintGate.Tool.Resolver
import LintGate.Tool.Version
import LintGate.Verdict
import LintGate.Verification
import LintGate.Proofs.Path.Segments
import LintGate.Proofs.Path.Names
import LintGate.Proofs.Path.Locations
import LintGate.Proofs.FileTree.Resolution
import LintGate.Proofs.FileTree.WellFormed
import LintGate.Proofs.FileTree.Descent
import LintGate.Proofs.FileTree.Walk
import LintGate.Proofs.Glob.Literal
import LintGate.Proofs.Ignore.SkippedDirs
import LintGate.Proofs.Language.Extensions
import LintGate.Proofs.Language.Names
import LintGate.Proofs.OptOut
import LintGate.Proofs.Path.Order
import LintGate.Proofs.Selection
import LintGate.Proofs.Process.Interleaving
import LintGate.Proofs.FileTree.View
import LintGate.Proofs.Run.Looks
import LintGate.Proofs.Run.SideBySide
import LintGate.Proofs.FileTree.Change
import LintGate.Proofs.Run.Launches
import LintGate.Proofs.Verification.Hangs
import LintGate.Proofs.Ledger
import LintGate.Proofs.Run.Report
import LintGate.Proofs.Process.Isolation
import LintGate.Proofs.Run.Profiles
import LintGate.Proofs.Run.Isolation
import LintGate.Proofs.FileTree.Linkless
import LintGate.Proofs.Settings.Root
import LintGate.Proofs.Verification.Phases
import LintGate.Proofs.FileTree.Rewriting
import LintGate.Proofs.Verification.Convergence
import LintGate.Proofs.Process.Together
import LintGate.Proofs.Settings.Checks
import LintGate.Proofs.Run.CustomChecks
import LintGate.Proofs.Run.Locks
import LintGate.Proofs.Verification.Accounts
import LintGate.Proofs.Run.Findings
import LintGate.Proofs.Run.Order
import LintGate.Proofs.Lock.Exclusion
import LintGate.Proofs.Lock.Turns
import LintGate.Proofs.Detection
import LintGate.Proofs.Detection.Depth
import LintGate.Proofs.Selection.FullScan
import LintGate.Proofs.Verification.Targets
import LintGate.Proofs.Ledger.Emission
import LintGate.Proofs.Tool.Preference
import LintGate.Proofs.Ignore.Parents
import LintGate.Proofs.Verification.RepairReach
import LintGate.Proofs.Run.Formatters
import LintGate.Proofs.Tool.Version
import LintGate.Proofs.Git.Counters
import LintGate.Proofs.Git.Snapshot
import LintGate.Proofs.Settings.Languages
import LintGate.Proofs.Tool.Recognition
import LintGate.Proofs.Check.FileSize
import LintGate.Proofs.Report.Content
import LintGate.Proofs.Report.Colour
import LintGate.Proofs.Tool.Templates
import LintGate.Proofs.Verification.Versions
import LintGate.Proofs.Process.Drain
