-- SUMMARY: Where builds take place: their environment, their effects and their reports.
import BuildServer.FileSystem.Change
import BuildServer.Job
import BuildServer.Journal
import BuildServer.Pipeline.Error
import BuildServer.Pipeline.Layout

/-!
# Build sites

The environment is what all builds share: directories, the way programs are
found, and the way they are run. A site is what a build changes: the file
system, the record of the programs it ran, and its reports. `Build` computes on
a site; what was done before a failure stays done.
-/

namespace BuildServer

structure BuildEnvironment where
  buildRoot : String
  bindingsFile : String
  /-- The path of a program, by its name. -/
  locate : FileSystem → String → Option String
  run : Invocation → FileSystem → RunOutcome × FileSystem

namespace Build

/-- What a build reports. -/
inductive Event where
  | toolsMissing (repo : String) (cause : StageError)
  | bindingsAbsent (path : String)
  | configureBlank (key : String)
  | aborted (error : BuildError)
  deriving DecidableEq, Repr

def Event.entry : Event → JournalEntry
  | .toolsMissing repo cause =>
    .error "failed to find git; build FAILED" [("repo", repo), ("error", cause.message)]
  | .bindingsAbsent path => .warning "macro file doesn't exist" [("path", path)]
  | .configureBlank key => .warning "configure command is empty; continuing build" [("key", key)]
  | .aborted error =>
    .error "build FAILED" [("stage", error.stage.label), ("error", error.cause.message)]

end Build

/-- The file system around a build, the invocations made so far and the
    reports, each in order. -/
structure Site where
  fs : FileSystem
  calls : List Invocation
  events : List Build.Event

/-- Why a build did not get to its end. -/
inductive Build.Halt where
  | failed (error : BuildError)
  | crashed
  deriving DecidableEq, Repr

/-- A computation on a site. -/
abbrev Build (α : Type) := ExceptT Build.Halt (StateM Site) α

namespace Build

variable {α : Type}

def fail (stage : Stage) (cause : StageError) : Build α :=
  throw (.failed ⟨stage, cause⟩)

def report (e : Event) : Build Unit :=
  modify fun s => { s with events := s.events ++ [e] }

/-- A result that counts for the given stage. -/
def check (stage : Stage) (r : Except StageError α) : Build α :=
  match r with
  | .ok a => return a
  | .error cause => fail stage cause

/-- Look something up in the file system as it is now. -/
def inspect (f : FileSystem → α) : Build α := do
  return f (← get).fs

/-- Record an invocation and run it. -/
def invoke (env : BuildEnvironment) (i : Invocation) : Build RunOutcome :=
  modifyGet fun s =>
    let (outcome, fs) := env.run i s.fs
    (outcome, { s with fs, calls := s.calls ++ [i] })

/-- Run a program that must succeed. -/
def runChecked (env : BuildEnvironment) (stage : Stage) (i : Invocation) : Build Unit := do
  match ← invoke env i with
  | .exited status =>
    if status.isSuccess then return else fail stage (.nonZeroExit i.line status)
  | .notStarted cause => fail stage (.spawn i.line cause)
  | .crashed => throw .crashed

/-- Make sure that a directory is there. -/
def provision (stage : Stage) (path : String) : Build Unit := do
  let result ← modifyGet fun s =>
    let (result, fs) := FileSystem.ensureDir path s.fs
    (result, { s with fs })
  check stage ((result.map fun _ => ()).mapError (.createDir path))

end Build

end BuildServer
