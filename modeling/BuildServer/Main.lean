-- SUMMARY: The command line program on a machine in memory.
import BuildServer.CommandLine.Program
import BuildServer.Execution.Machine

/-!
# Main program

The program works on a machine in memory, which gets the configuration files of
the host and the directory of builds. What stands on standard input is written
to the control channel piece by piece while the server waits. A server that
still serves after that ends quietly.
-/

namespace BuildServer.Main

/-! ## Machine -/

def emptyMachine : FileSystem := Machine.install FileSystem.empty

/-- Put a file on the machine together with its directories. -/
def putFile (fs : FileSystem) (path : String) (content : List UInt8) : FileSystem :=
  let fs := (FileSystem.ensureDir ((Path.ancestors path).headD "/") fs).2
  (fs.write path fun _ => content).toOption.getD fs

/-- The configuration that is found on the machine. -/
def configuration (fs : FileSystem) (path : String) : Option DaemonConfig :=
  ((Settings.load fs DaemonConfig.fileRole path).bind DaemonConfig.ofSettings).toOption

/-- Where the input waits that the control channel has not got yet. -/
def inputPath : String := "/dev/stdin"

/-- Write the next piece of the input to a control channel that is read. -/
def feed (fifo : String) (fs : FileSystem) : FileSystem :=
  match fs.read inputPath, fs.stat fifo with
  | .ok input, .ok (place, .fifo pipe) =>
    if pipe.readers = 0 then fs
    else putFile (fs.set place (.fifo (pipe.write (input.take Pipe.pageSize)).2)) inputPath
      (input.drop Pipe.pageSize)
  | _, _ => fs

def environment : BuildEnvironment where
  buildRoot := ""
  bindingsFile := ""
  locate := (SearchPath.mk Machine.searchDirs).locate
  run := Machine.run

/-- How often the server may wait for input of so many bytes. -/
def patience (size : Nat) : Nat := size / Pipe.pageSize + 2

/-! ## Host -/

/-- Put a file of the host on the machine if the host has it. -/
def importFile (fs : FileSystem) (path : String) : IO FileSystem := do
  try
    return putFile fs path (← IO.FS.readBinFile path).toList
  catch _ =>
    return fs

/-- The machine with what a configuration file asks for. -/
def importConfiguration (path : String) : IO FileSystem := do
  let fs ← importFile emptyMachine path
  match configuration fs path with
  | none => return fs
  | some config =>
    let fs := (FileSystem.ensureDir config.buildRoot fs).2
    importFile (← importFile fs config.registryFile) config.bindingsFile

/-- All that comes on a stream. -/
partial def readAll (stream : IO.FS.Stream) : IO (List UInt8) := do
  let bytes ← stream.read 4096
  if bytes.isEmpty then return [] else return bytes.toList ++ (← readAll stream)

/-- The input of the program, which only a server reads. -/
def readInput : CommandLine.Action → IO (List UInt8)
  | .run => do readAll (← IO.getStdin)
  | _ => return []

/-- Carry out what the arguments ask for, and give the exit code. -/
def perform (args : List String) : IO UInt32 := do
  let (config, input) ← match CommandLine.Request.parse args with
    | .ok r => do pure (r.config, ← readInput r.action)
    | .error _ => pure (CommandLine.Request.defaultConfig, [])
  let fs ← importConfiguration config
  let fifo := ((configuration fs config).map (·.fifo)).getD ""
  let seed ← IO.rand 1 0xffffffff
  let world : CommandLine.World := ⟨environment, feed fifo, ⟨BitVec.ofNat _ seed⟩⟩
  let fs := putFile fs inputPath input
  match (CommandLine.perform world (patience input.length) args fs).1 with
  | none => return 0
  | some output =>
    IO.print output.stdout
    IO.eprint output.stderr
    return UInt32.ofNat output.code

end BuildServer.Main

def main (args : List String) : IO UInt32 := BuildServer.Main.perform args
