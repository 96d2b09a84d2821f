import StepTrace.Text.Blank
import StepTrace.Text.WordChar
import StepTrace.Text.Pieces
import StepTrace.Text.Line
import StepTrace.Text.Span
import StepTrace.Text.Numeral
import StepTrace.Json.Basic
import StepTrace.Json.Reader
import StepTrace.Json.Writer
import StepTrace.Json.Record
import StepTrace.Text.Cased
import StepTrace.Text.Case
import StepTrace.Language
import StepTrace.LineEvent
import StepTrace.Submission
import StepTrace.Marker
import StepTrace.Notice
import StepTrace.Python.SyntaxError
import StepTrace.Python.LogicalLine
import StepTrace.Python.LogicalLine.Reader
import StepTrace.Python.Stmt
import StepTrace.Python.Stmt.Marking
import StepTrace.Python.Stmt.Reader
import StepTrace.Python.Stmt.Writer
import StepTrace.Python.Prompt
import StepTrace.Python.Program
import StepTrace.Failure
import StepTrace.Posix.CommentFree
import StepTrace.Posix.LineScan
import StepTrace.Posix.ScriptState
import StepTrace.Posix.Script
import StepTrace.Posix.SyntaxReport
import StepTrace.Adapter
import StepTrace.PowerShellScript
import StepTrace.Moment
import StepTrace.Moment.Reader
import StepTrace.ProcessRecord
import StepTrace.Text.Utf8
import StepTrace.Transcript
import StepTrace.Streams
import StepTrace.Streams.LineReader
import StepTrace.Environment
import StepTrace.Settings
import StepTrace.Settings.Json
import StepTrace.Toml.Scalar
import StepTrace.Toml.Quoted
import StepTrace.Toml.Table
import StepTrace.Toml.Reader
import StepTrace.Toml.Writer
import StepTrace.Settings.Toml
import StepTrace.Platform
import StepTrace.Host.Path
import StepTrace.Host.Disk
import StepTrace.Host
import StepTrace.Settings.File
import StepTrace.Host.Shell.Command
import StepTrace.Host.Shell.Cursor
import StepTrace.Host.Shell.Parser
import StepTrace.Host.Shell.Pattern
import StepTrace.Host.Shell.Arithmetic
import StepTrace.Host.Shell.Format
import StepTrace.Host.Shell.Machine
import StepTrace.Host.Shell.Tool
import StepTrace.Host.Shell.Condition
import StepTrace.Host.Shell.Field
import StepTrace.Host.Shell.Builtin
import StepTrace.Host.Shell.Run
import StepTrace.Host.Bytes
import StepTrace.Host.Standard
import StepTrace.Host.Program
import StepTrace.Session
import StepTrace.Turn
import StepTrace.Interpreter.Process
import StepTrace.Interpreter
import StepTrace.Manager
import StepTrace.Workshop
import StepTrace.Scan
import StepTrace.Diagnostics
import StepTrace.CommandLine.Request
import StepTrace.CommandLine
import StepTrace.Main
import StepTrace.Proofs.Posix.Quoting
import StepTrace.Proofs.Session.TurnEvents
import StepTrace.Proofs.Python.Growth
import StepTrace.Proofs.Python.Scan
import StepTrace.Proofs.Python.Rows
import StepTrace.Proofs.Python.WellFormed
import StepTrace.Proofs.Python.RoundTrip
import StepTrace.Proofs.Python.Copying
import StepTrace.Proofs.Python.Slices
import StepTrace.Proofs.Python.Pieces
import StepTrace.Proofs.Python.Reading
import StepTrace.Proofs.Python.Preprocess
import StepTrace.Proofs.Session.Submission
import StepTrace.Proofs.Manager.Execution
import StepTrace.Proofs.Workshop.Execution
import StepTrace.Proofs.Python.Grammar
import StepTrace.Proofs.Python.Gathering
import StepTrace.Proofs.Python.Provenance
import StepTrace.Proofs.Python.Numbering
import StepTrace.Proofs.Python.Stripping
import StepTrace.Proofs.Python.Announcing
import StepTrace.Proofs.Python.Retaining
import StepTrace.Proofs.Python.Marking
import StepTrace.Proofs.Python.Passages
import StepTrace.Proofs.Python.Literals
import StepTrace.Proofs.Python.FormatSpecs
import StepTrace.Proofs.Python.Gaps
import StepTrace.Proofs.Python.BlankLines
import StepTrace.Proofs.Python.Indentation
import StepTrace.Proofs.Python.LineEnds
import StepTrace.Proofs.Python.Faults
import StepTrace.Proofs.Python.Nesting
import StepTrace.Proofs.Python.Offsets
import StepTrace.Proofs.Python.Cuts
import StepTrace.Proofs.Posix.State
import StepTrace.Proofs.Posix.Markers
import StepTrace.Proofs.Posix.Closing
import StepTrace.Proofs.Session.Lifecycle
import StepTrace.Proofs.Interpreter.Lifecycle
import StepTrace.Proofs.Json.Spelling
import StepTrace.Proofs.Json.Wire
import StepTrace.Proofs.Session.Threads
import StepTrace.Proofs.Session.Closure
import StepTrace.Proofs.Session.Keeping
import StepTrace.Proofs.Manager.Traffic
import StepTrace.Proofs.Manager.Exclusion
import StepTrace.Proofs.Manager.Turns
import StepTrace.Proofs.Interpreter.Arrivals
import StepTrace.Proofs.Workshop.History
import StepTrace.Proofs.Workshop.Views
import StepTrace.Proofs.Text.Utf8
import StepTrace.Proofs.Host.Disk
import StepTrace.Proofs.Toml.Strings
import StepTrace.Proofs.Toml.Values
import StepTrace.Proofs.Toml.Document
import StepTrace.Proofs.Settings.Data
import StepTrace.Proofs.Settings.Formats
import StepTrace.Proofs.Settings.Validity
import StepTrace.Proofs.Settings.Saving
import StepTrace.Proofs.Posix.Passages
import StepTrace.Proofs.Posix.Comments
import StepTrace.Proofs.Posix.Continuations
import StepTrace.Proofs.Posix.FunctionHeaders
import StepTrace.Proofs.Posix.HereDocuments
import StepTrace.Proofs.Scripts.AddedLines
import StepTrace.Proofs.Python.Prompts
import StepTrace.Proofs.Marker.Codec
import StepTrace.Proofs.Marker.Stripping
import StepTrace.Proofs.Posix.Arithmetic
import StepTrace.Proofs.Posix.SimpleCommands
import StepTrace.Proofs.Session.Draining
import StepTrace.Proofs.Transcript.LongestEnd
import StepTrace.Proofs.Streams.Relaying
import StepTrace.Proofs.Settings.Loading
import StepTrace.Proofs.Settings.Layers
import StepTrace.Proofs.Text.Case
import StepTrace.Proofs.Language.Names
import StepTrace.Proofs.Workshop.Eager
import StepTrace.Proofs.Platform.Preference
import StepTrace.Proofs.ProcessRecord.Reports
