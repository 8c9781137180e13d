import ProjectCheck.Aggregation
import ProjectCheck.Checker.Cargo
import ProjectCheck.Checker.GoVet
import ProjectCheck.Checker.Line
import ProjectCheck.Checker.Mypy
import ProjectCheck.Checker.Pylint
import ProjectCheck.Checker.Tsc
import ProjectCheck.Decimal.Binary64
import ProjectCheck.Decimal.Rounded
import ProjectCheck.Decimal.Shortest
import ProjectCheck.Decimal.Written
import ProjectCheck.Diagnostic
import ProjectCheck.Discovery
import ProjectCheck.Dispatch
import ProjectCheck.ExtensionCache
import ProjectCheck.Failure
import ProjectCheck.Files.Path
import ProjectCheck.Files.RealPath
import ProjectCheck.Files.Tree
import ProjectCheck.Files.Uri
import ProjectCheck.Json.Basic
import ProjectCheck.Json.Reader
import ProjectCheck.Json.Writer
import ProjectCheck.Log.Level
import ProjectCheck.Log.Record
import ProjectCheck.Log.Setup
import ProjectCheck.Machine.Basic
import ProjectCheck.Machine.Checkers
import ProjectCheck.Machine.Command
import ProjectCheck.Machine.Connection
import ProjectCheck.Machine.Files
import ProjectCheck.Machine.Reading
import ProjectCheck.Machine.Tool
import ProjectCheck.Machine.Turns
import ProjectCheck.Outcome
import ProjectCheck.ProjectRoot
import ProjectCheck.Proofs.Aggregation
import ProjectCheck.Proofs.CheckOutcomes
import ProjectCheck.Proofs.Checker.Forms
import ProjectCheck.Proofs.Checker.Lines
import ProjectCheck.Proofs.Checker.Mypy
import ProjectCheck.Proofs.Checker.Parts
import ProjectCheck.Proofs.Checker.Places
import ProjectCheck.Proofs.Checker.Readable
import ProjectCheck.Proofs.Checker.Records
import ProjectCheck.Proofs.Checker.Tsc
import ProjectCheck.Proofs.Checker.Written
import ProjectCheck.Proofs.CommandLines
import ProjectCheck.Proofs.Crashes
import ProjectCheck.Proofs.Desk
import ProjectCheck.Proofs.Discovery
import ProjectCheck.Proofs.ExtensionCache
import ProjectCheck.Proofs.FailedChecks
import ProjectCheck.Proofs.Files.Linkless
import ProjectCheck.Proofs.Files.Names
import ProjectCheck.Proofs.Files.RealPath
import ProjectCheck.Proofs.Files.Sorted
import ProjectCheck.Proofs.Files.Uri
import ProjectCheck.Proofs.Files.UriSpelling
import ProjectCheck.Proofs.FirstOccurrences
import ProjectCheck.Proofs.Freshness
import ProjectCheck.Proofs.Grouping
import ProjectCheck.Proofs.JoinedOutputs
import ProjectCheck.Proofs.Json.Lossless
import ProjectCheck.Proofs.Json.Members
import ProjectCheck.Proofs.Json.NumberText
import ProjectCheck.Proofs.Json.Numbers
import ProjectCheck.Proofs.Json.Reread
import ProjectCheck.Proofs.Json.Spelling
import ProjectCheck.Proofs.Json.Strings
import ProjectCheck.Proofs.Launches
import ProjectCheck.Proofs.LogLines
import ProjectCheck.Proofs.Machine.Calm
import ProjectCheck.Proofs.Machine.Checkers
import ProjectCheck.Proofs.Machine.Commands
import ProjectCheck.Proofs.Machine.Delivery
import ProjectCheck.Proofs.Machine.Ending
import ProjectCheck.Proofs.Machine.Journal
import ProjectCheck.Proofs.Machine.Lenient
import ProjectCheck.Proofs.Machine.Malformed
import ProjectCheck.Proofs.Machine.Reading
import ProjectCheck.Proofs.Machine.Rest
import ProjectCheck.Proofs.Machine.Runs
import ProjectCheck.Proofs.Machine.Service
import ProjectCheck.Proofs.Machine.Sleep
import ProjectCheck.Proofs.Machine.Streams
import ProjectCheck.Proofs.Machine.Talk
import ProjectCheck.Proofs.Machine.ToolRuns
import ProjectCheck.Proofs.Machine.Waiting
import ProjectCheck.Proofs.ProjectRoots
import ProjectCheck.Proofs.Releases
import ProjectCheck.Proofs.ReportText
import ProjectCheck.Proofs.Reporting
import ProjectCheck.Proofs.Rounds
import ProjectCheck.Proofs.Selection
import ProjectCheck.Proofs.ServedFiles
import ProjectCheck.Proofs.Server.Account
import ProjectCheck.Proofs.Server.Bulletins
import ProjectCheck.Proofs.Server.Conduct
import ProjectCheck.Proofs.Server.Dialogue
import ProjectCheck.Proofs.Server.Documents
import ProjectCheck.Proofs.Server.Exchange
import ProjectCheck.Proofs.Server.Faithful
import ProjectCheck.Proofs.Server.Fleet
import ProjectCheck.Proofs.Server.Frames
import ProjectCheck.Proofs.Server.Greeting
import ProjectCheck.Proofs.Server.Incidents
import ProjectCheck.Proofs.Server.Journal
import ProjectCheck.Proofs.Server.Launch
import ProjectCheck.Proofs.Server.Messages
import ProjectCheck.Proofs.Server.Occurrences
import ProjectCheck.Proofs.Server.Overrides
import ProjectCheck.Proofs.Server.Pending
import ProjectCheck.Proofs.Server.Publications
import ProjectCheck.Proofs.Server.Reception
import ProjectCheck.Proofs.Server.Registries
import ProjectCheck.Proofs.Server.Requests
import ProjectCheck.Proofs.Server.Serving
import ProjectCheck.Proofs.Server.Streams
import ProjectCheck.Proofs.Server.Takeable
import ProjectCheck.Proofs.Server.Upkeep
import ProjectCheck.Proofs.Server.Visit
import ProjectCheck.Proofs.Settings.Entries
import ProjectCheck.Proofs.Settings.Fields
import ProjectCheck.Proofs.Settings.Loading
import ProjectCheck.Proofs.Settings.Sources
import ProjectCheck.Proofs.Severities
import ProjectCheck.Proofs.Standing
import ProjectCheck.Proofs.Text.Breaks
import ProjectCheck.Proofs.Text.Calendar
import ProjectCheck.Proofs.Text.Digits
import ProjectCheck.Proofs.Text.Integers
import ProjectCheck.Proofs.Text.LetterCase
import ProjectCheck.Proofs.Text.Lines
import ProjectCheck.Proofs.Text.Runs
import ProjectCheck.Proofs.Text.Utf8
import ProjectCheck.Proofs.ToolReports
import ProjectCheck.Proofs.ToolResults
import ProjectCheck.Proofs.Tools
import ProjectCheck.Proofs.Validation
import ProjectCheck.Proofs.Waits
import ProjectCheck.Proofs.Walks
import ProjectCheck.Report
import ProjectCheck.Server.Builtin
import ProjectCheck.Server.Client
import ProjectCheck.Server.Fleet
import ProjectCheck.Server.Frame
import ProjectCheck.Server.Message
import ProjectCheck.Server.Published
import ProjectCheck.Server.Registry
import ProjectCheck.Server.Session
import ProjectCheck.Server.Spec
import ProjectCheck.Settings.Basic
import ProjectCheck.Settings.Home
import ProjectCheck.Settings.Load
import ProjectCheck.Strategy
import ProjectCheck.Survey
import ProjectCheck.Text.Blank
import ProjectCheck.Text.Calendar
import ProjectCheck.Text.Digit
import ProjectCheck.Text.Integer
import ProjectCheck.Text.LetterCase
import ProjectCheck.Text.Line
import ProjectCheck.Text.Numeral
import ProjectCheck.Text.Printable
import ProjectCheck.Text.Quoted
import ProjectCheck.Text.Template
import ProjectCheck.Text.Utf8
import ProjectCheck.Toml.Document
import ProjectCheck.Toml.Scalar
import ProjectCheck.Toml.Table
import ProjectCheck.Toml.Value
import ProjectCheck.ToolResult
import ProjectCheck.Validation
