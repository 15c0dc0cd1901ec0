-- SUMMARY: Acting on control commands: flags for stop and restart, jobs for builds.
import BuildServer.Control.Command
import BuildServer.Control.Flags
import BuildServer.Control.LineReader
import BuildServer.Registry

/-!
# Handler

The handler turns each command into its effect. A request to stop or restart
sets flags and ends the reading. A request to build becomes a job, which is
submitted to whatever queue the handler was given; a request that cannot be
carried out is reported and leaves everything as it was.
-/

namespace BuildServer.Control

/-! ## Submission -/

/-- Why a job was not accepted. -/
inductive SubmitError where
  | queueFull (capacity : Nat)
  | channelClosed
  deriving DecidableEq, Repr

def SubmitError.message : SubmitError → String
  | .queueFull capacity => s!"job queue is full ({capacity} pending jobs)"
  | .channelClosed => "channel closed: job queue"

/-- A place where jobs are submitted, with a state. -/
structure Sink (σ : Type) where
  submit : Job → σ → Except SubmitError Unit × σ

/-! ## Events -/

/-- What the reader and the handler report. -/
inductive Event where
  | notice (n : Notice)
  | stopReceived
  | restartReceived
  | malformed (line : String)
  | requestDropped (cause : UnknownRepository)
  | dispatched (job : Job)
  | rejected (job : Job) (cause : SubmitError)
  deriving DecidableEq, Repr

def Event.entry : Event → JournalEntry
  | .notice .closed => .warning "control channel closed" []
  | .notice .lineTooLong =>
    .warning "control channel line too long; discarding it" [("limit", toString lineLimit)]
  | .notice (.readFailed reason) =>
    .error "control channel read failed; no longer accepting commands" [("error", reason)]
  | .stopReceived => .info "received STOP command" []
  | .restartReceived => .info "received RESTART command" []
  | .malformed line => .warning "malformed command" [("line", line)]
  | .requestDropped cause => .error "dropping build request" [("error", cause.message)]
  | .dispatched job => .info "build request dispatched" [("job", job.label)]
  | .rejected job cause =>
    .error "build request rejected" [("job", job.label), ("error", cause.message)]

/-! ## Handling -/

/-- What handling changes: the flags, the state of the sink, and the reports. -/
structure Desk (σ : Type) where
  flags : Flags
  sink : σ
  /-- The reports, the latest first. -/
  latest : List Event

namespace Desk

variable {σ : Type}

def report (d : Desk σ) (e : Event) : Desk σ := { d with latest := e :: d.latest }

/-- The reports in the order in which they were made. -/
def events (d : Desk σ) : List Event := d.latest.reverse

/-- Submit the job that a request describes. -/
def dispatch (registry : Registry) (sink : Sink σ) (request : BuildRequest) (d : Desk σ) : Desk σ :=
  match registry.resolve request.repo with
  | .error cause => d.report (.requestDropped cause)
  | .ok repository =>
    let job := repository.job request.profile request.branch request.revision
    match sink.submit job d.sink with
    | (.ok (), state) => { d with sink := state }.report (.dispatched job)
    | (.error cause, state) => { d with sink := state }.report (.rejected job cause)

def handle (registry : Registry) (sink : Sink σ) (command : Command) (d : Desk σ) : Flow × Desk σ :=
  match command with
  | .stop => (.done, { d.report .stopReceived with flags := d.flags.requestStop })
  | .restart => (.done, { d.report .restartReceived with flags := d.flags.requestRestart })
  | .build request => (.more, d.dispatch registry sink request)
  | .malformed line => (.more, d.report (.malformed line))

def handleLine (registry : Registry) (sink : Sink σ) (line : String) (d : Desk σ) :
    Flow × Desk σ :=
  d.handle registry sink (.parse line)

/-- The handler as the listener of a line reader. -/
def listener (registry : Registry) (sink : Sink σ) : Listener (Desk σ) where
  line := handleLine registry sink
  notice n d := d.report (.notice n)

end Desk

end BuildServer.Control
