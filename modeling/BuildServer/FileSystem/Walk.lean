-- SUMMARY: Where a path leads: links, dots, missing names and the limits on names.
import BuildServer.FileSystem.Basic
import BuildServer.Text.Utf8

/-!
# Walking

A path is followed name by name from the root or from `cwd`. It leads to a node
or to a vacant place in an existing directory. A link is replaced by its
target, except at the very end of a path that does not ask for more; the number
of links on one way is limited, which is also what ends a walk in circles.
-/

namespace BuildServer

/-- Where a path leads. -/
inductive Target where
  | found (place : Place) (node : Node)
  /-- Nothing has this name in the directory `parent`. `slash` tells that the
      path goes on with slashes, which only a directory could satisfy. -/
  | vacant (parent : Place) (name : String) (slash : Bool)
  deriving DecidableEq, Repr

namespace FileSystem

/-- Bytes of the longest name. -/
def nameLimit : Nat := 255

/-- Bytes of the shortest path that is too long. -/
def pathLimit : Nat := 4096

/-- Links that one walk may follow. -/
def linkLimit : Nat := 40

/-- Walk on from a directory, with `jump` to go on after a link. -/
def steps (fs : FileSystem) (follow : Bool) (jump : Place → List String → Except IoError Target) :
    Place → List String → Except IoError Target
  | here, [] => .ok (.found here .directory)
  | here, seg :: rest =>
    if seg = "" ∨ seg = "." then steps fs follow jump here rest
    else if seg = ".." then steps fs follow jump here.dropLast rest
    else if nameLimit < (Text.utf8Encode seg).length then .error .nameTooLong
    else
      let place := here ++ [seg]
      match fs.nodes[place]? with
      | none =>
        if rest.all (· == "") then .ok (.vacant here seg !rest.isEmpty) else .error .notFound
      | some .directory => steps fs follow jump place rest
      | some (.link target) =>
        if rest.isEmpty && !follow then .ok (.found place (.link target))
        else jump (if Path.isAbsolute target then [] else here) (Path.segments target ++ rest)
      | some node => if rest.isEmpty then .ok (.found place node) else .error .notADirectory

/-- Walk over at most so many links. -/
def walkFrom (fs : FileSystem) (follow : Bool) :
    Nat → Place → List String → Except IoError Target
  | 0 => fs.steps follow fun _ _ => .error .tooManyLinks
  | links + 1 => fs.steps follow (walkFrom fs follow links)

/-- Where a path leads. A link at its end is followed only on request. -/
def walk (fs : FileSystem) (follow : Bool) (path : String) : Except IoError Target :=
  if path.toList.contains '\x00' then .error .nulInPath
  else if path.isEmpty then .error .notFound
  else if pathLimit ≤ (Text.utf8Encode path).length then .error .nameTooLong
  else
    fs.walkFrom follow linkLimit (if Path.isAbsolute path then [] else fs.cwd) (Path.segments path)

/-- The node that a path leads to, and its place. -/
def stat (fs : FileSystem) (path : String) : Except IoError (Place × Node) :=
  match fs.walk true path with
  | .ok (.found place node) => .ok (place, node)
  | .ok (.vacant ..) => .error .notFound
  | .error e => .error e

/-- The path, without links, dots and idle slashes, of what a path leads to. It has to
    be one that can be followed. -/
def canonicalize (fs : FileSystem) (path : String) : Except IoError String := do
  let (place, _) ← fs.stat path
  let _ ← fs.stat place.path
  return place.path

def isDirectory (fs : FileSystem) (path : String) : Bool :=
  match fs.stat path with
  | .ok (_, node) => node.isDirectory
  | .error _ => false

def isExecutable (fs : FileSystem) (path : String) : Bool :=
  match fs.stat path with
  | .ok (_, node) => node.isExecutable
  | .error _ => false

end FileSystem

end BuildServer
