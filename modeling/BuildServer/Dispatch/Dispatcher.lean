-- SUMMARY: The job queue and the slots in which builds run, step by step.
import BuildServer.Control.Handler

/-!
# Dispatcher

Accepted jobs wait in a bounded queue. A loop takes a free slot first and then
the next job, so that jobs wait in the queue and not in the loop's hands, and
starts a build that gives the slot back when it ends, however it ends. The loop
ends when nobody can submit any more and the queue is empty.

Everything that happens is one of the moves of `Move`, in any order in which
they are possible.
-/

namespace BuildServer

open Control (SubmitError)

structure Dispatcher where
  /-- How many builds may run at once. -/
  slots : Nat
  /-- How many jobs may wait. -/
  depth : Nat
  queue : List Job
  /-- Slots that neither a build nor the loop has. -/
  free : Nat
  /-- The loop has a slot and waits for a job. -/
  armed : Bool
  /-- Jobs whose builds run, the earliest first. -/
  running : List Job
  /-- How many can still submit jobs. -/
  handles : Nat
  /-- The loop has not ended. -/
  alive : Bool
  deriving DecidableEq, Repr

namespace Dispatcher

/-- The largest number of places that a queue can have, and of slots. -/
def permitLimit : Nat := Nat.pow 2 61 - 1

/-- Start a dispatcher, with one place and one slot at least. A queue beyond
    the limit cannot be made at all; with slots beyond it, the loop is gone as
    soon as it starts. -/
def start? (maxJobs queueDepth : Nat) : Option Dispatcher :=
  let slots := max maxJobs 1
  let depth := max queueDepth 1
  if permitLimit < depth then none
  else some {
    slots, depth
    queue := []
    free := slots
    armed := false
    running := []
    handles := 1
    alive := slots ≤ permitLimit }

/-! ## Moves -/

/-- Offer a job. -/
def submit (d : Dispatcher) (job : Job) : Except SubmitError Unit × Dispatcher :=
  if !d.alive then (.error .channelClosed, d)
  else if d.queue.length < d.depth then (.ok (), { d with queue := d.queue ++ [job] })
  else (.error (.queueFull d.depth), d)

inductive Move where
  | submit (job : Job)
  /-- One more who can submit. -/
  | share
  /-- One fewer who can submit. -/
  | drop
  /-- The loop takes a slot. -/
  | acquire
  /-- The loop takes a job and starts its build. -/
  | receive
  /-- The build at a position among the running ones ends. -/
  | finish (position : Nat)
  /-- The loop ends by itself. -/
  | leave
  /-- The loop is ended from outside. -/
  | cancel
  deriving DecidableEq, Repr

/-- The state after a move, if it is possible. -/
def move? (d : Dispatcher) : Move → Option Dispatcher
  | .submit job => if 0 < d.handles then some (d.submit job).2 else none
  | .share => if 0 < d.handles then some { d with handles := d.handles + 1 } else none
  | .drop => if 0 < d.handles then some { d with handles := d.handles - 1 } else none
  | .acquire =>
    if d.alive ∧ !d.armed ∧ 0 < d.free then some { d with free := d.free - 1, armed := true }
    else none
  | .receive =>
    match d.queue with
    | job :: queue =>
      if d.alive ∧ d.armed then
        some { d with queue, armed := false, running := d.running ++ [job] }
      else none
    | [] => none
  | .finish i =>
    if i < d.running.length then
      some { d with running := d.running.eraseIdx i, free := d.free + 1 }
    else none
  | .leave =>
    if d.alive ∧ d.armed ∧ d.queue = [] ∧ d.handles = 0 then
      some { d with alive := false, armed := false, free := d.free + 1 }
    else none
  | .cancel =>
    some { d with
      alive := false
      queue := []
      armed := false
      free := if d.armed then d.free + 1 else d.free }

/-- The state after a move, or the same state if the move is not possible. -/
def move (d : Dispatcher) (m : Move) : Dispatcher := (d.move? m).getD d

end Dispatcher

end BuildServer
