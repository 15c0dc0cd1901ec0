-- SUMMARY: What can make a stage of a build fail, and the failure of a whole build.
import BuildServer.Bindings
import BuildServer.Execution.Invocation
import BuildServer.Pipeline.Stage
import BuildServer.Settings.Error

/-!
# Build errors

A build stops at the first stage that fails. Its error names that stage and
the cause.
-/

namespace BuildServer

inductive StageError where
  | toolNotFound (tool : String)
  | createDir (path : String) (cause : IoError)
  | settings (cause : SettingsError)
  | unresolvedToken (cause : UnresolvedToken)
  /-- The program could not be started. -/
  | spawn (command : String) (cause : IoError)
  | nonZeroExit (command : String) (exit : ExitStatus)
  /-- The command line has no words. -/
  | emptyCommand
  /-- The command line has an open quote. -/
  | openQuote (command : String)
  | optionLikeRevision (revision : String)
  deriving DecidableEq, Repr

def StageError.message : StageError → String
  | .toolNotFound tool => s!"no {tool} executable found in PATH"
  | .createDir path cause => s!"failed to create directory {path}: {cause.message}"
  | .settings cause => cause.message
  | .unresolvedToken cause => cause.message
  | .spawn command cause => s!"failed to run '{command}': {cause.message}"
  | .nonZeroExit command exit => s!"'{command}' returned {exit.message}"
  | .emptyCommand => "command line is empty after macro expansion"
  | .openQuote command => s!"cannot split command line '{command}': missing closing quote"
  | .optionLikeRevision revision => s!"revision '{revision}' must not start with '-'"

structure BuildError where
  stage : Stage
  cause : StageError
  deriving DecidableEq, Repr

def BuildError.message (e : BuildError) : String :=
  s!"{e.stage.label} failed: {e.cause.message}"

end BuildServer
