import BuildServer.Bindings
import BuildServer.BuildId
import BuildServer.CommandLine.Arguments
import BuildServer.CommandLine.Client
import BuildServer.CommandLine.Program
import BuildServer.CommandLine.Report
import BuildServer.Control.Channel
import BuildServer.Control.Command
import BuildServer.Control.Flags
import BuildServer.Control.Handler
import BuildServer.Control.LineReader
import BuildServer.Daemon.Basic
import BuildServer.Daemon.Config
import BuildServer.Daemon.Error
import BuildServer.Daemon.Service
import BuildServer.Daemon.Startup
import BuildServer.Dispatch.Dispatcher
import BuildServer.Dispatch.Workshop
import BuildServer.Execution.Invocation
import BuildServer.Execution.Machine
import BuildServer.Execution.SearchPath
import BuildServer.FileSystem.Basic
import BuildServer.FileSystem.Change
import BuildServer.FileSystem.Error
import BuildServer.FileSystem.Pipe
import BuildServer.FileSystem.Walk
import BuildServer.Ini.Document
import BuildServer.Ini.Reader
import BuildServer.Job
import BuildServer.Journal
import BuildServer.Main
import BuildServer.Path
import BuildServer.Pipeline.Basic
import BuildServer.Pipeline.Error
import BuildServer.Pipeline.Layout
import BuildServer.Pipeline.Site
import BuildServer.Pipeline.Stage
import BuildServer.Proofs.Ancestors
import BuildServer.Proofs.Bindings.Expansion
import BuildServer.Proofs.Bindings.Lookup
import BuildServer.Proofs.Bindings.Settled
import BuildServer.Proofs.CommandLine.Client
import BuildServer.Proofs.Control.Arrivals
import BuildServer.Proofs.Control.Command
import BuildServer.Proofs.Control.Holding
import BuildServer.Proofs.Control.Listening
import BuildServer.Proofs.Control.Reading
import BuildServer.Proofs.Control.Requests
import BuildServer.Proofs.Control.Transcript
import BuildServer.Proofs.Control.Wire
import BuildServer.Proofs.Daemon.Configuration
import BuildServer.Proofs.Daemon.Failures
import BuildServer.Proofs.Daemon.Life
import BuildServer.Proofs.Daemon.Lifecycle
import BuildServer.Proofs.Daemon.Limits
import BuildServer.Proofs.Daemon.Startup
import BuildServer.Proofs.Dispatch.Ledger
import BuildServer.Proofs.Dispatch.Workshop
import BuildServer.Proofs.Except
import BuildServer.Proofs.FileSystem.Canonical
import BuildServer.Proofs.FileSystem.Directories
import BuildServer.Proofs.FileSystem.Growth
import BuildServer.Proofs.FileSystem.Pipes
import BuildServer.Proofs.FileSystem.Walk
import BuildServer.Proofs.Ini.Sections
import BuildServer.Proofs.Ini.Writing
import BuildServer.Proofs.Path
import BuildServer.Proofs.Pipeline.Arguments
import BuildServer.Proofs.Pipeline.Configure
import BuildServer.Proofs.Pipeline.Confinement
import BuildServer.Proofs.Pipeline.Frame
import BuildServer.Proofs.Pipeline.Gates
import BuildServer.Proofs.Pipeline.GitArguments
import BuildServer.Proofs.Pipeline.Independence
import BuildServer.Proofs.Pipeline.Launch
import BuildServer.Proofs.Pipeline.Layout
import BuildServer.Proofs.Pipeline.Programs
import BuildServer.Proofs.Pipeline.Site
import BuildServer.Proofs.Pipeline.Tokens
import BuildServer.Proofs.Registry.Construction
import BuildServer.Proofs.Registry.Sections
import BuildServer.Proofs.Settings.Loading
import BuildServer.Proofs.Settings.Value
import BuildServer.Proofs.Settings.Writing
import BuildServer.Proofs.Text.Integer
import BuildServer.Proofs.Text.Quoted
import BuildServer.Proofs.Text.Utf8
import BuildServer.Proofs.Text.Words
import BuildServer.Registry
import BuildServer.Settings.Basic
import BuildServer.Settings.Error
import BuildServer.Settings.File
import BuildServer.Settings.Value
import BuildServer.Shell.Builtin
import BuildServer.Shell.Calculation
import BuildServer.Shell.Expansion
import BuildServer.Shell.Pattern
import BuildServer.Shell.Run
import BuildServer.Shell.Script
import BuildServer.Shell.State
import BuildServer.Shell.Token
import BuildServer.Shell.Utility
import BuildServer.Shell.Word
import BuildServer.Text.Blank
import BuildServer.Text.Integer
import BuildServer.Text.Quoted
import BuildServer.Text.Utf8
