-- SUMMARY: What can go wrong when the server starts or runs.
import BuildServer.Control.Channel
import BuildServer.Daemon.Config

/-!
# Server errors

The phases of the server's life, and the errors of starting and running it.
-/

namespace BuildServer

/-- What the server says about itself. -/
inductive DaemonState where
  | uninitialized
  | initialized
  | running
  /-- Running, but asked to stop. -/
  | stopping
  | stopped
  deriving DecidableEq, Repr

def DaemonState.label : DaemonState → String
  | .uninitialized => "uninitialized"
  | .initialized => "initialized"
  | .running => "running"
  | .stopping => "stopping"
  | .stopped => "stopped"

/-- What the server was asked to do. -/
inductive Operation where
  | init
  | run
  deriving DecidableEq, Repr

def Operation.label : Operation → String
  | .init => "init"
  | .run => "run"

/-- A failure of the event loop itself. -/
inductive LoopFailure where
  | notStarted (reason : String)
  | crashed
  deriving DecidableEq, Repr

def LoopFailure.message : LoopFailure → String
  | .notStarted reason => s!"failed to start event loop thread: {reason}"
  | .crashed => "event loop thread panicked"

inductive DaemonError where
  | settings (cause : SettingsError)
  | channel (cause : Control.ChannelError)
  | io (path : String) (cause : IoError)
  | buildRootNotFound (path : String)
  | notADirectory (path : String)
  | invalidState (operation : Operation) (state : DaemonState)
  | loop (cause : LoopFailure)
  deriving DecidableEq, Repr

namespace DaemonError

def message : DaemonError → String
  | .settings cause => cause.message
  | .channel cause => cause.message
  | .io path cause => s!"I/O error at {path}: {cause.message}"
  | .buildRootNotFound path => s!"build root {path} doesn't exist"
  | .notADirectory path => s!"{path} isn't a directory"
  | .invalidState operation state => s!"cannot {operation.label} while daemon is {state.label}"
  | .loop cause => s!"daemon runtime error: {cause.message}"

/-- The text of the fault beneath, where the error wraps one. -/
def cause? : DaemonError → Option String
  | .settings cause => cause.cause?
  | .channel (.io _ cause) => some cause.message
  | .io _ cause => some cause.message
  | _ => none

end DaemonError

end BuildServer
