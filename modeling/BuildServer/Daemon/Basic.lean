-- SUMMARY: The life of the server: its phases, its flags and what it holds ready.
import BuildServer.Control.Flags
import BuildServer.Daemon.Startup

/-!
# Server life

A server is initialized once and run once. Running takes what was prepared,
starts the event loop, waits for the stop flag and ends the loop. Stopping and
restarting may be asked for at any time, before the first step too.
-/

namespace BuildServer

inductive Phase where
  | uninitialized
  | initialized
  | running
  | stopped
  deriving DecidableEq, Repr

/-- The state of a server in a phase if nobody asks it to stop. -/
def Phase.state : Phase → DaemonState
  | .uninitialized => .uninitialized
  | .initialized => .initialized
  | .running => .running
  | .stopped => .stopped

structure Daemon where
  phase : Phase
  flags : Control.Flags
  prepared : Option Prepared

/-- What is to be done after the server has stopped. -/
inductive Disposition where
  | success
  /-- Start again with the same arguments. -/
  | restart
  deriving DecidableEq, Repr

/-- How the event loop fares. -/
inductive LoopFate where
  | notStarted (reason : String)
  | crashed
  | ended
  deriving DecidableEq, Repr

namespace Daemon

def new : Daemon := ⟨.uninitialized, .clear, none⟩

/-- What the server says about itself: its phase, but that a running server which
    was asked to stop is stopping. -/
def state (d : Daemon) : DaemonState :=
  if d.phase = .running ∧ d.flags.stop then .stopping else d.phase.state

def stop (d : Daemon) : Daemon := { d with flags := d.flags.requestStop }

def restart (d : Daemon) : Daemon := { d with flags := d.flags.requestRestart }

/-! ## Initialization -/

/-- What initialization gives, with the state of the world after it. -/
structure Initialization where
  result : Except DaemonError Unit
  daemon : Daemon
  fs : FileSystem
  events : List Registry.Event

/-- Initialize the server. Only one in its first phase can be, and a refusal
    names the phase whatever was asked for in it. -/
def init (d : Daemon) (path : String) (fs : FileSystem) : Initialization :=
  if d.phase = .uninitialized then
    let startup := Startup.of path fs
    match startup.result with
    | .error e => ⟨.error e, d, startup.fs, startup.events⟩
    | .ok prepared =>
      ⟨.ok (), { d with phase := .initialized, prepared := some prepared }, startup.fs,
        startup.events⟩
  else ⟨.error (.invalidState .init d.phase.state), d, fs, []⟩

/-! ## Running -/

/-- Take what was prepared. -/
def take (d : Daemon) : Except DaemonError Prepared × Daemon :=
  match d.prepared with
  | none => (.error (.invalidState .run d.state), d)
  | some prepared => (.ok prepared, { d with prepared := none })

/-- The event loop has been started. -/
def launch (d : Daemon) : Daemon := { d with phase := .running }

def disposition (d : Daemon) : Disposition :=
  if d.flags.restart then .restart else .success

/-- The stop flag has been seen and the loop has ended. -/
def conclude (d : Daemon) : Disposition × Daemon :=
  (d.disposition, { d with phase := .stopped })

/-- A whole run. While the loop works, the flags change as `meanwhile` says. -/
def run (d : Daemon) (fate : LoopFate) (meanwhile : Control.Flags → Control.Flags) :
    Except DaemonError Disposition × Daemon :=
  match d.take with
  | (.error e, d) => (.error e, d)
  | (.ok _, d) =>
    let launched := { d.launch with flags := meanwhile d.flags }
    match fate with
    | .notStarted reason => (.error (.loop (.notStarted reason)), d)
    | .crashed => (.error (.loop .crashed), launched)
    | .ended =>
      let (disposition, d) := launched.conclude
      (.ok disposition, d)

end Daemon

end BuildServer
