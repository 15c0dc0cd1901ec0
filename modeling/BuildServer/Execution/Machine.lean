-- SUMMARY: The machine that programs run on.
import BuildServer.Execution.Invocation
import BuildServer.Shell.Run

/-!
# Machine

A machine runs invocations on a file system that holds its programs and
scripts. A program starts in the directory of its invocation, with nothing to
read, and with the variables of the machine. If it cannot be started, nothing
has changed.
-/

namespace BuildServer.Machine

/-- The directory of the programs. -/
def programDir : Place := ["usr", "bin"]

/-- Directories in which programs are looked up. -/
def searchDirs : List String :=
  ["/usr/local/sbin", "/usr/local/bin", "/usr/sbin", "/usr/bin", "/sbin", "/bin"]

/-- What the machine has besides its programs. -/
def fixtures : List (Place × Node) :=
  [(["dev"], .directory), (["dev", "null"], .device), (["root"], .directory),
    (["tmp"], .directory), (["usr"], .directory), (programDir, .directory),
    (["bin"], .link "usr/bin")]

/-- Put the programs of the machine where they belong. -/
def install (fs : FileSystem) : FileSystem :=
  Shell.Utility.programs.foldl (fun fs name => fs.set (programDir ++ [name]) (.program name))
    (fixtures.foldl (fun fs (place, node) => fs.set place node) fs)

/-- How deep scripts may be nested while they run. -/
def depthLimit : Nat := 4096

/-- The state that a program starts on. -/
def startState (i : Invocation) (fs : FileSystem) : Shell.State where
  fs
  name := i.program
  args := i.args
  vars := .ofList
    ([("PATH", ":".intercalate searchDirs), ("HOME", "/root"), ("PWD", fs.cwd.path)].map
      fun (name, value) => (name, Shell.Variable.mk value true))
  status := 0
  input := []
  output := []
  strict := false
  declared := false
  fault := false
  functions := []
  traps := []
  jobs := []
  loops := 0
  pid := 2

/-- Paths at which a program may be that is not given by a path. -/
def candidates (program : String) : List String :=
  if program.isEmpty then [] else searchDirs.map (Path.join · program)

/-- Start at the first path at which there is something to start. That nothing
    may be executed there counts only if nothing else is found. -/
def startFirst {α : Type} (start : String → Except IoError α) :
    IoError → List String → Except IoError α
  | cause, [] => .error cause
  | cause, path :: paths =>
    match start path with
    | .error .permissionDenied => startFirst start .permissionDenied paths
    | .error .notFound => startFirst start cause paths
    | .error .notADirectory => startFirst start cause paths
    | r => r

/-- Start the program of an invocation in the present directory. -/
def start (i : Invocation) (fs : FileSystem) : Except IoError (Shell.Flow × Shell.State) :=
  let exec (path : String) :=
    Shell.exec (Shell.run depthLimit) Shell.interpreterLimit path i.args (startState i fs)
  if i.program.toList.contains '/' then exec i.program
  else startFirst exec .notFound (candidates i.program)

/-- The file system as it is for a program that runs in a directory. -/
def enter (fs : FileSystem) : Option String → Except IoError FileSystem
  | none => .ok fs
  | some dir => do
    let (place, node) ← fs.stat dir
    if node.isDirectory then return { fs with cwd := place } else throw .notADirectory

def exitStatus : Shell.Flow × Shell.State → ExitStatus
  | (.killed _, _) => .terminated
  | (_, s) => .code s.status

/-- Run an invocation. -/
def run (i : Invocation) (fs : FileSystem) : RunOutcome × FileSystem :=
  if (i.program :: i.args ++ i.cwd.toList).any (·.toList.contains '\x00') then
    (.notStarted .nulInArgument, fs)
  else match (enter fs i.cwd).bind (start i) with
    | .ok r => (.exited (exitStatus r), { r.2.fs with cwd := fs.cwd })
    | .error e => (.notStarted e, fs)

end BuildServer.Machine
