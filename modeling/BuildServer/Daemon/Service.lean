-- SUMMARY: The event loop at work: the control channel, the handler and the builds.
import BuildServer.Daemon.Basic
import BuildServer.Dispatch.Workshop

/-!
# Service

A service is a server whose event loop runs. It reads what has arrived on the
control channel, hands every line to the handler, and lets the workshop do what
it can between two submissions. The reader lets go of the channel as soon as it
has an exit, while the service goes on until the stop flag is set.
-/

namespace BuildServer

/-- The handler's desk with the workshop behind it. -/
abbrev ServiceDesk := Control.Desk Workshop

structure Service where
  env : BuildEnvironment
  channel : Control.Channel
  registry : Registry
  /-- Which running builds end as soon as they can. -/
  ready : BuildRun → Bool
  session : Control.Session ServiceDesk

namespace Service

def desk (s : Service) : ServiceDesk := s.session.listening

def workshop (s : Service) : Workshop := s.desk.sink

def fs (s : Service) : FileSystem := s.workshop.site.fs

def setFs (s : Service) (fs : FileSystem) : Service :=
  let desk := s.desk
  let workshop := desk.sink
  let site := { workshop.site with fs }
  { s with session.listening := { desk with sink := { workshop with site } } }

def setFlags (s : Service) (flags : Control.Flags) : Service :=
  { s with session.listening := { s.desk with flags } }

def listener (s : Service) : Control.Listener ServiceDesk :=
  Control.Desk.listener s.registry (Workshop.sink s.env s.ready)

/-- Start the event loop of a server that has been prepared, or nothing if its
    queue cannot be made. With the stop flag set, the reader never reads. -/
def start? (prepared : Prepared) (flags : Control.Flags) (env : BuildEnvironment)
    (ready : BuildRun → Bool) (site : Site) (supply : BuildId.Supply) : Option Service := do
  let config := prepared.config
  let dispatcher ← Dispatcher.start? config.maxJobs config.queueDepth
  let workshop := Workshop.ofDispatcher dispatcher site supply
  let desk : ServiceDesk := ⟨flags, workshop, []⟩
  return {
    env := { env with buildRoot := config.buildRoot, bindingsFile := config.bindingsFile }
    channel := prepared.channel
    registry := prepared.registry
    ready
    session := ⟨.fresh, desk, [], none⟩ }

/-- The reader has an exit: let go of the channel. -/
def release (s : Service) : Service := s.setFs (s.channel.close s.fs)

/-- Read once, and handle what came. What the handler does not take any more is
    lost. -/
def readOnce (s : Service) : Service :=
  let (bytes, fs) := s.channel.read s.fs
  let s := s.setFs fs
  let pending : List Control.Delivery := if bytes.isEmpty then [] else [.bytes bytes]
  let session := { s.session with pending }.catchUp s.listener (bytes.length + 1)
  let s := { s with session }
  if session.exit.isSome then s.release else s

/-- Read as long as the reader listens and something waits, so many times at
    most. -/
def readAll : Nat → Service → Service
  | 0, s => s
  | n + 1, s =>
    if s.session.exit.isSome then s
    else match s.fs.node? s.channel.place with
      | some (.fifo pipe) => if pipe.content.isEmpty then s else readAll n s.readOnce
      | _ => s

/-- Once the stop flag is set, the reader is given the shutdown signal. -/
def heedStop (s : Service) : Service :=
  if s.desk.flags.stop && s.session.exit.isNone then
    { s with session := s.session.leave .shutdown }.release
  else s

/-- Let everything happen that can. -/
def settle (s : Service) : Service :=
  let desk := s.desk
  let s := { s with session.listening := { desk with sink := desk.sink.settle s.env s.ready } }
  (readAll (Pipe.capacity + 1) s.heedStop).heedStop

end Service

end BuildServer
