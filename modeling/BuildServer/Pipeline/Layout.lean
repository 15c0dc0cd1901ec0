-- SUMMARY: The directories that belong to one build.
import BuildServer.BuildId
import BuildServer.Path

/-!
# Layout

Every build has a directory of its own, below the directory of its repository
and profile. The sources are checked out into one part of it, and the build
runs in another.
-/

namespace BuildServer

structure Layout where
  toplevel : String
  sources : String
  binaries : String
  deriving DecidableEq, Repr

def Layout.of (buildRoot profile repo : String) (id : BuildId) : Layout :=
  let toplevel := Path.join (Path.join (Path.join buildRoot profile) repo) id.text
  { toplevel, sources := Path.join toplevel "repo", binaries := Path.join toplevel "build" }

end BuildServer
