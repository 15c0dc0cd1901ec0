-- SUMMARY: The control channel: a named pipe that the server reads and clients write to.
import BuildServer.Control.Command
import BuildServer.FileSystem.Change

/-!
# Control channel

The server creates its pipe if nothing is there, and holds it open for reading
as long as it listens. A client never waits: without a reader, the server
counts as not running, and what does not fit into the pipe is an error.
-/

namespace BuildServer.Control

inductive ChannelError where
  | io (path : String) (cause : IoError)
  | notAFifo (path : String)
  /-- The pipe is missing or nobody reads it. -/
  | notRunning (fifo : String)
  deriving DecidableEq, Repr

def ChannelError.message : ChannelError → String
  | .io path cause => s!"I/O error at {path}: {cause.message}"
  | .notAFifo path => s!"{path} exists but isn't a FIFO"
  | .notRunning fifo => s!"daemon is not running (no reader on control channel {fifo})"

/-! ## The server's end -/

/-- Only the owner may use the pipe. -/
def fifoMode : Nat := 0o600

/-- Make sure that a pipe is there, and tell whether it had to be created. At a link
    whose target is missing, the pipe is neither found nor can it be created, since the
    link exists. This is an error here, but a server that takes it for somebody else
    having been faster looks again, without end. -/
def ensureFifo (path : String) (fs : FileSystem) : Except ChannelError Bool × FileSystem :=
  match fs.stat path with
  | .ok (_, .fifo _) => (.ok false, fs)
  | .ok _ => (.error (.notAFifo path), fs)
  | .error .notFound =>
    match fs.mkfifo path fifoMode with
    | .ok fs => (.ok true, fs)
    | .error e => (.error (.io path e), fs)
  | .error e => (.error (.io path e), fs)

/-- The server's end of a pipe that it holds open. -/
structure Channel where
  path : String
  place : Place
  deriving DecidableEq, Repr

namespace Channel

/-- Open the pipe for reading and create it if needed. -/
def listen (path : String) (fs : FileSystem) : Except ChannelError Channel × FileSystem :=
  match ensureFifo path fs with
  | (.error e, fs) => (.error e, fs)
  | (.ok _, fs) =>
    match fs.stat path with
    | .ok (place, _) => (.ok ⟨path, place⟩, fs.updatePipe place .addReader)
    | .error e => (.error (.io path e), fs)

/-- Take what one read takes. -/
def read (c : Channel) (fs : FileSystem) : List UInt8 × FileSystem :=
  match fs.node? c.place with
  | some (.fifo pipe) => (pipe.read.1, fs.set c.place (.fifo pipe.read.2))
  | _ => ([], fs)

/-- Let go of the pipe. -/
def close (c : Channel) (fs : FileSystem) : FileSystem :=
  fs.updatePipe c.place .dropReader

end Channel

/-! ## The client's end -/

/-- What a client writes for a command. -/
def wire (c : Command) : List UInt8 :=
  Text.utf8Encode (c.line ++ "\n")

/-- Send one command to the server that reads the pipe. -/
def send (path : String) (c : Command) (fs : FileSystem) : Except ChannelError Unit × FileSystem :=
  match fs.stat path with
  | .error .notFound => (.error (.notRunning path), fs)
  | .error e => (.error (.io path e), fs)
  | .ok (place, .fifo pipe) =>
    if pipe.readers = 0 then (.error (.notRunning path), fs)
    else
      let (result, pipe) := pipe.write (wire c)
      (result.mapError (.io path), fs.set place (.fifo pipe))
  | .ok _ => (.error (.notAFifo path), fs)

/-- Times that a client tries to reach a server that may be starting. -/
def attempts : Nat := 5

/-- Try up to so many times while the server is not running. Between two tries
    the client waits for a moment, in which `wait` says what changes. -/
def sendRetrying (wait : FileSystem → FileSystem) (path : String) (c : Command) :
    Nat → FileSystem → Except ChannelError Unit × FileSystem
  | 0, fs => (.error (.notRunning path), fs)
  | n + 1, fs =>
    match send path c fs with
    | (.error (.notRunning p), fs) =>
      if n = 0 then (.error (.notRunning p), fs) else sendRetrying wait path c n (wait fs)
    | result => result

end BuildServer.Control
