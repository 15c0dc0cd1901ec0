-- SUMMARY: Changes of a file system: directories, pipes, links and files.
import BuildServer.FileSystem.Walk

/-!
# Changes

A single change either gives the changed file system or fails and leaves it as
it was. Creating a directory together with its ancestors is several changes, of
which some may have been made when one fails.
-/

namespace BuildServer

namespace FileSystem

/-- A path without the slashes at its end. -/
def withoutFinalSlashes (path : String) : String :=
  let kept := (path.toList.reverse.dropWhile (· == '/')).reverse
  if kept.isEmpty then path else String.ofList kept

/-! ## Directories -/

def mkdir (fs : FileSystem) (path : String) : Except IoError FileSystem :=
  match fs.walk false (withoutFinalSlashes path) with
  | .ok (.found ..) => .error .exists
  | .ok (.vacant parent name _) => .ok (fs.set (parent ++ [name]) .directory)
  | .error e => .error e

/-- Create the first directory of a list that begins with the wanted one and
    goes on with its ancestors, creating as many of these as are missing. -/
def mkdirWith : List String → FileSystem → Except IoError Unit × FileSystem
  | [], fs => (.ok (), fs)
  | path :: ancestors, fs =>
    if path.isEmpty then (.ok (), fs)
    else match fs.mkdir path with
      | .ok fs => (.ok (), fs)
      | .error .notFound =>
        match mkdirWith ancestors fs with
        | (.error e, fs) => (.error e, fs)
        | (.ok (), fs) =>
          match fs.mkdir path with
          | .ok fs => (.ok (), fs)
          | .error e => (if fs.isDirectory path then .ok () else .error e, fs)
      | .error e => (if fs.isDirectory path then .ok () else .error e, fs)

/-- Make sure that a directory is there, and tell whether it had to be created. -/
def ensureDir (path : String) (fs : FileSystem) : Except IoError Bool × FileSystem :=
  if fs.isDirectory path then (.ok false, fs)
  else
    let (result, fs) := mkdirWith (path :: Path.ancestors path) fs
    (result.map fun _ => true, fs)

/-! ## Pipes, links and files -/

/-- Put a node where nothing is. -/
def create (fs : FileSystem) (path : String) (node : Node) : Except IoError FileSystem :=
  match fs.walk false path with
  | .ok (.found ..) => .error .exists
  | .ok (.vacant parent name false) => .ok (fs.set (parent ++ [name]) node)
  | .ok (.vacant _ _ true) => .error .notFound
  | .error e => .error e

def mkfifo (fs : FileSystem) (path : String) (mode : Nat) : Except IoError FileSystem :=
  fs.create path (.fifo (.idle mode))

def symlink (fs : FileSystem) (target path : String) : Except IoError FileSystem :=
  fs.create path (.link target)

/-- Mode of a new file. -/
def newFileMode : Nat := 0o644

/-- Set the content of the file at a path, or create it with that content. What
    is written to a device is gone. -/
def write (fs : FileSystem) (path : String) (change : List UInt8 → List UInt8) :
    Except IoError FileSystem :=
  match fs.walk true path with
  | .ok (.found place (.file content mode)) => .ok (fs.set place (.file (change content) mode))
  | .ok (.found _ .directory) => .error .isADirectory
  | .ok (.found _ _) => .ok fs
  | .ok (.vacant parent name false) =>
    .ok (fs.set (parent ++ [name]) (.file (change []) newFileMode))
  | .ok (.vacant _ _ true) => .error .isADirectory
  | .error e => .error e

/-- The content of the file at a path. A device is empty. -/
def read (fs : FileSystem) (path : String) : Except IoError (List UInt8) :=
  match fs.stat path with
  | .ok (_, .file content _) => .ok content
  | .ok (_, .directory) => .error .isADirectory
  | .ok (_, _) => .ok []
  | .error e => .error e

end FileSystem

end BuildServer
