-- SUMMARY: File systems as finite maps from places to nodes.
import Std.Data.ExtTreeMap
import BuildServer.FileSystem.Pipe
import BuildServer.Path

/-!
# File systems

A place is the list of names that leads from the root to a node; unlike a path
it has no links, dots or empty names in it. A file system says what is at each
place. The root is a directory whatever the map holds, and paths that do not
begin at the root begin at `cwd`.
-/

namespace BuildServer

/-- Names from the root to a node. -/
abbrev Place := List String

inductive Node where
  | directory
  | file (content : List UInt8) (mode : Nat)
  | fifo (pipe : Pipe)
  | link (target : String)
  | device
  /-- A program of the machine itself, known by its name. -/
  | program (name : String)
  deriving DecidableEq, Repr

namespace Node

def isDirectory : Node → Bool
  | .directory => true
  | _ => false

/-- A node that can be run: a program, or a file that anyone may execute. -/
def isExecutable : Node → Bool
  | .file _ mode => mode &&& 0o111 != 0
  | .program _ => true
  | _ => false

/-- A node with content of its own, read and written as a whole. -/
def isRegular : Node → Bool
  | .file .. => true
  | .program _ => true
  | _ => false

end Node

structure FileSystem where
  nodes : Std.ExtTreeMap Place Node
  /-- Where relative paths begin. -/
  cwd : Place

namespace FileSystem

def empty : FileSystem := ⟨∅, []⟩

def node? (fs : FileSystem) (p : Place) : Option Node :=
  if p.isEmpty then some .directory else fs.nodes[p]?

def set (fs : FileSystem) (p : Place) (n : Node) : FileSystem :=
  { fs with nodes := fs.nodes.insert p n }

/-- Change the pipe at a place. -/
def updatePipe (fs : FileSystem) (p : Place) (f : Pipe → Pipe) : FileSystem :=
  match fs.node? p with
  | some (.fifo pipe) => fs.set p (.fifo (f pipe))
  | _ => fs

/-- Everything below a place, in the order of places. -/
def below (fs : FileSystem) (p : Place) : List (Place × Node) :=
  fs.nodes.toList.filter fun e => p.isPrefixOf e.1 && e.1 != p

end FileSystem

/-- The path of a place. -/
def Place.path (p : Place) : String := "/" ++ Path.ofSegments p

end BuildServer
