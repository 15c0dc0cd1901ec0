-- SUMMARY: The command line program: one request from arguments to output.
import BuildServer.CommandLine.Arguments
import BuildServer.CommandLine.Client
import BuildServer.Daemon.Service

/-!
# Program

The program reads its arguments, runs the server or sends it a command, and
reports how that went. A server that stops for a restart is started again with
the same arguments. While the program waits, others may change the file system;
`World.wait` says how.
-/

namespace BuildServer.CommandLine

/-- Everything around the program. -/
structure World where
  env : BuildEnvironment
  /-- What becomes of the file system while the program waits. -/
  wait : FileSystem → FileSystem
  supply : BuildId.Supply

def versionLine : String := "build-bot 0.1.0\n"

def usageText : String :=
  "Usage: build-bot [OPTIONS] [run | stop | restart | build REPO PROFILE BRANCH REVISION]\n"

/-! ## Server -/

/-- Serve until the stop flag is set, waiting so many times at most. -/
def serve (w : World) : Nat → Service → Service
  | 0, s => s
  | n + 1, s =>
    if s.desk.flags.stop then s else serve w n (s.setFs (w.wait s.fs)).settle

def startFailure (config : String) (e : DaemonError) : Failure :=
  ⟨s!"failed to initialize build-bot from {config}", e.message :: e.cause?.toList⟩

def runFailure (e : DaemonError) : Failure :=
  ⟨"build-bot exited with error", e.message :: e.cause?.toList⟩

/-- One life of the server. There is no result if it still serves after waiting
    so many times, or if its event loop is gone and nobody can stop it. -/
def runOnce (w : World) (patience : Nat) (config : String) (fs : FileSystem) :
    Option (Except Failure Disposition) × FileSystem :=
  let start := Daemon.new.init config fs
  match start.result with
  | .error e => (some (.error (startFailure config e)), start.fs)
  | .ok () =>
    match start.daemon.take with
    | (.error e, _) => (some (.error (runFailure e)), start.fs)
    | (.ok prepared, d) =>
      let site : Site := ⟨start.fs, [], []⟩
      match Service.start? prepared d.flags w.env (fun _ => true) site w.supply with
      | none => (none, prepared.channel.close start.fs)
      | some s =>
        let s := serve w patience s.settle
        if s.desk.flags.stop then
          (some (.ok ({ d.launch with flags := s.desk.flags }.conclude).1), s.fs)
        else (none, s.fs)

/-- The server with all its restarts, so many at most. -/
def runServer (w : World) (patience : Nat) (config : String) :
    Nat → FileSystem → Option Output × FileSystem
  | 0, fs => (none, fs)
  | n + 1, fs =>
    match runOnce w patience config fs with
    | (none, fs) => (none, fs)
    | (some (.error f), fs) => (some f.output, fs)
    | (some (.ok .success), fs) => (some ⟨0, "", ""⟩, fs)
    | (some (.ok .restart), fs) => runServer w patience config n fs

/-! ## Program -/

/-- Carry out what the arguments ask for. It gives up after so many waits and restarts. -/
def perform (w : World) (patience : Nat) (args : List String) (fs : FileSystem) :
    Option Output × FileSystem :=
  match Request.parse args with
  | .error .version => (some ⟨0, versionLine, ""⟩, fs)
  | .error .help => (some ⟨0, usageText, ""⟩, fs)
  | .error (.usage e) => (some ⟨2, "", s!"error: {e.message}\n\n{usageText}"⟩, fs)
  | .ok request =>
    let send (fifo : Option String) (c : Command) : Option Output × FileSystem :=
      let (output, fs) := sendCommand w.wait request.config fifo c fs
      (some output, fs)
    match request.action with
    | .run => runServer w patience request.config patience fs
    | .stop fifo => send fifo .stop
    | .restart fifo => send fifo .restart
    | .build fifo repo profile branch revision =>
      match buildCommand { repo, profile, branch, revision } with
      | .error e => (some (Failure.output ⟨e.message, []⟩), fs)
      | .ok c => send fifo c

end BuildServer.CommandLine
