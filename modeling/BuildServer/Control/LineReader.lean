-- SUMMARY: Reading control lines of bounded length from a stream of bytes.
import BuildServer.Text.Blank
import BuildServer.Text.Utf8

/-!
# Line reader

The reader cuts a stream of bytes into lines and hands them to a listener. It
works in turns. In a turn it gathers bytes up to a newline, but never more than
one byte beyond the longest permitted line, and the turn ends early when the
shutdown signal changes or the stream has nothing more to give. A longer line
is reported once and skipped up to its newline, so what the reader holds is
bounded whatever the stream brings. Held bytes survive a turn that was ended by
the signal.
-/

namespace BuildServer.Control

/-! ## Streams -/

/-- What a waiting reader is woken by. -/
inductive Delivery where
  /-- Bytes have arrived. Where there are none, nothing has happened. -/
  | bytes (arrived : List UInt8)
  /-- The shutdown signal was set anew, and still says to go on. -/
  | wake
  deriving DecidableEq, Repr

/-- What happens after the last delivery. -/
inductive StreamEnd where
  | closed
  | failed (reason : String)
  /-- The shutdown signal is given while a read is pending. -/
  | shutdown
  /-- Nobody is left who could give the shutdown signal. -/
  | abandoned
  deriving DecidableEq, Repr

/-- Why the reader stopped. -/
inductive ReaderExit where
  | shutdown
  | handler
  | closed
  | failed
  deriving DecidableEq, Repr

/-! ## Listeners -/

/-- Whether a listener wants more lines. -/
inductive Flow where
  | more
  | done
  deriving DecidableEq, Repr

/-- What the reader reports besides lines. -/
inductive Notice where
  | closed
  | lineTooLong
  | readFailed (reason : String)
  deriving DecidableEq, Repr

/-- One who receives the lines and notices of a reader, with a state. -/
structure Listener (σ : Type) where
  line : String → σ → Flow × σ
  notice : Notice → σ → σ

/-! ## Lines -/

/-- Bytes of the longest line that is handled. Its newline does not count. -/
def lineLimit : Nat := 4096

def newline : UInt8 := 10

/-- The text of a line without the line breaks at its end. -/
def lineText (bytes : List UInt8) : String :=
  String.ofList
    (Text.dropTail (fun c => c == '\n' || c == '\r') (Text.utf8DecodeLossy bytes).toList)

/-- Hand over a line unless it is blank. -/
def deliver {σ : Type} (l : Listener σ) (bytes : List UInt8) (listening : σ) : Flow × σ :=
  let text := lineText bytes
  if text.toList.all Text.isBlank then (.more, listening) else l.line text listening

/-! ## Turns -/

/-- The bytes of an unfinished line, and whether they belong to one that is too
    long. -/
structure LineReader where
  held : List UInt8
  skipping : Bool
  deriving DecidableEq, Repr

namespace LineReader

def fresh : LineReader := ⟨[], false⟩

/-- How many bytes the next read may take. -/
def budget (r : LineReader) : Nat := lineLimit + 1 - r.held.length

/-- What a read takes of the bytes that have arrived. -/
def taken : Nat → List UInt8 → List UInt8
  | 0, _ => []
  | _ + 1, [] => []
  | n + 1, b :: bs => if b = newline then [b] else b :: taken n bs

end LineReader

/-- Why no more bytes are gathered in a turn. -/
inductive Halt where
  /-- A newline, or as many bytes as may be taken. -/
  | enough
  /-- A read brought nothing. -/
  | dry
  /-- The reader would have to wait. -/
  | waiting
  deriving DecidableEq, Repr

/-- Gather at most so many bytes. Gives them, why that was all, and what is
    left to be delivered. -/
def gather : Nat → List Delivery → List UInt8 × Halt × List Delivery
  | 0, pending => ([], .dry, pending)
  | _ + 1, [] => ([], .waiting, [])
  | _ + 1, .wake :: later => ([], .waiting, .wake :: later)
  | n + 1, .bytes arrived :: later =>
    if arrived.isEmpty then gather (n + 1) later
    else
      let got := LineReader.taken (n + 1) arrived
      let rest := arrived.drop got.length
      if got.getLast? = some newline ∨ got.length = n + 1 then
        (got, .enough, if rest.isEmpty then later else .bytes rest :: later)
      else
        let (more, halt, left) := gather (n + 1 - got.length) later
        (got ++ more, halt, left)

/-- A reader at work: what it holds, the state of its listener, what is still
    to be delivered, and the exit once there is one. -/
structure Session (σ : Type) where
  reader : LineReader
  listening : σ
  pending : List Delivery
  exit : Option ReaderExit

namespace Session

variable {σ : Type}

def leave (s : Session σ) (e : ReaderExit) : Session σ := { s with exit := some e }

/-- Hand over what is held as a line, unless it is skipped, and start afresh. -/
def release (l : Listener σ) (s : Session σ) : Flow × Session σ :=
  if s.reader.skipping then (.more, { s with reader := .fresh })
  else
    let (flow, listening) := deliver l s.reader.held s.listening
    (flow, { s with reader := .fresh, listening })

/-- The stream has ended. An unfinished line counts as a line. -/
def close (l : Listener σ) (s : Session σ) : Session σ :=
  let (flow, s) := if s.reader.held.isEmpty then (.more, s) else s.release l
  match flow with
  | .done => s.leave .handler
  | .more => { s with listening := l.notice .closed s.listening }.leave .closed

/-- Look at what is held after a read that was not cut short. -/
def examine (l : Listener σ) (s : Session σ) : Session σ :=
  if s.reader.held.getLast? = some newline then
    let (flow, s) := s.release l
    match flow with
    | .done => s.leave .handler
    | .more => s
  else if lineLimit < s.reader.held.length then
    let listening := if s.reader.skipping then s.listening else l.notice .lineTooLong s.listening
    { s with reader := ⟨[], true⟩, listening }
  else s

/-- A read that came back with nothing means that the stream has ended. One
    that came back with less than it might is followed by another. -/
def afterDry (l : Listener σ) (got : List UInt8) (s : Session σ) : Session σ :=
  if got.isEmpty then s.close l else s

/-- Nothing is left to be delivered: the stream ends in the given way. -/
def conclude (l : Listener σ) (ending : StreamEnd) (got : List UInt8) (s : Session σ) : Session σ :=
  match ending with
  | .closed => s.afterDry l got
  | .failed reason =>
    { s with listening := l.notice (.readFailed reason) s.listening }.leave .failed
  | .shutdown | .abandoned => s.leave .shutdown

/-- One turn of a reader whose stream ends in the given way. -/
def turn (l : Listener σ) (ending : StreamEnd) (s : Session σ) : Session σ :=
  if s.exit.isSome then s
  else
    let (got, halt, pending) := gather s.reader.budget s.pending
    let s := { s with reader.held := s.reader.held ++ got, pending }
    match halt, pending with
    | .enough, _ => s.examine l
    | .dry, _ => s.afterDry l got
    | .waiting, [] => s.conclude l ending got
    | .waiting, _ :: later => { s with pending := later }

/-- So many turns at most. -/
def turns (l : Listener σ) (ending : StreamEnd) : Nat → Session σ → Session σ
  | 0, s => s
  | n + 1, s => if s.exit.isSome then s else turns l ending n (s.turn l ending)

/-- So many turns at most, and none that would wait. -/
def catchUp (l : Listener σ) : Nat → Session σ → Session σ
  | 0, s => s
  | n + 1, s =>
    if s.exit.isSome || s.pending.isEmpty then s else catchUp l n (s.turn l .abandoned)

end Session

namespace Delivery

/-- Turns that a delivery can take. -/
def weight : Delivery → Nat
  | .bytes arrived => arrived.length + 1
  | .wake => 1

end Delivery

/-- Read until the listener is done, the signal is given or the stream ends.
    `signalled` says whether the shutdown signal was given before. -/
def readLines {σ : Type} (l : Listener σ) (signalled : Bool) (deliveries : List Delivery)
    (ending : StreamEnd) (listening : σ) : Session σ :=
  let s : Session σ := ⟨.fresh, listening, deliveries, none⟩
  if signalled then s.leave .shutdown
  else s.turns l ending (deliveries.foldr (·.weight + ·) 0 + 1)

end BuildServer.Control
