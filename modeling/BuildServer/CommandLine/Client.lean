-- SUMMARY: Actions that reach a running server: stop, restart and build.
import BuildServer.CommandLine.Report
import BuildServer.Control.Channel
import BuildServer.Daemon.Config

/-!
# Client

A client finds the control channel, writes one command to it and says so. The
fields of a build request must be single words, since nothing else would reach
the server as it was meant.
-/

namespace BuildServer.CommandLine

/-- A field of a build request that is no single word. -/
structure FieldError where
  field : String
  value : String
  deriving DecidableEq, Repr

def FieldError.message (e : FieldError) : String :=
  s!"{e.field} '{e.value}' must be a single non-empty word"

def checkField (field value : String) : Except FieldError Unit :=
  if Text.isWord value then .ok () else .error ⟨field, value⟩

/-- The command for a build request whose fields are all single words. -/
def buildCommand (r : BuildRequest) : Except FieldError Command := do
  checkField "repo" r.repo
  checkField "profile" r.profile
  checkField "branch" r.branch
  checkField "revision" r.revision
  return .build r

/-- The control channel that the configuration names. -/
def configuredFifo (fs : FileSystem) (config : String) : Except Failure String := do
  let settings ← (Settings.load fs DaemonConfig.fileRole config).mapError fun e =>
    ⟨s!"failed to read {config}", e.message :: e.cause?.toList⟩
  (settings.required .path DaemonConfig.fifoKey).mapError fun e =>
    ⟨s!"no control channel configured in {config}", e.message :: e.cause?.toList⟩

def sendFailure (c : Command) (e : Control.ChannelError) : Failure :=
  match e with
  | .notRunning _ => ⟨"build-bot is not running", [e.message]⟩
  | .io _ cause => ⟨s!"failed to send '{c.line}'", [e.message, cause.message]⟩
  | .notAFifo _ => ⟨s!"failed to send '{c.line}'", [e.message]⟩

/-- Send a command through the given pipe, or through the configured one. -/
def sendCommand (wait : FileSystem → FileSystem) (config : String) (fifo : Option String)
    (c : Command) (fs : FileSystem) : Output × FileSystem :=
  let path : Except Failure String := match fifo with
    | some path => .ok path
    | none => configuredFifo fs config
  match path with
  | .error f => (f.output, fs)
  | .ok path =>
    match Control.sendRetrying wait path c Control.attempts fs with
    | (.ok (), fs) => (⟨0, s!"sent '{c.line}' to {path}\n", ""⟩, fs)
    | (.error e, fs) => ((sendFailure c e).output, fs)

end BuildServer.CommandLine
