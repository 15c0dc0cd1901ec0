-- SUMMARY: Looking programs up by name in a list of directories.
import BuildServer.FileSystem.Walk

/-!
# Search path

A name without a slash is looked up in each directory in turn; a name with one
is a path already. Either way only what can be run is found.
-/

namespace BuildServer

structure SearchPath where
  dirs : List String
  deriving DecidableEq, Repr

/-- The path at which a program is found. -/
def SearchPath.locate (s : SearchPath) (fs : FileSystem) (name : String) : Option String :=
  if name.isEmpty then none
  else if name.toList.contains '/' then
    if fs.isExecutable name then some name else none
  else (s.dirs.map (Path.join · name)).find? fs.isExecutable

end BuildServer
