-- SUMMARY: The stop and restart flags, and the single stores that set them.

/-!
# Flags

Anyone may ask the server to stop or to restart, at any time and from anywhere.
The two flags are set by single stores and never cleared. A restart is a stop
after which the server is started again, so it stores the restart flag first:
whoever sees the stop flag then sees the restart flag too.
-/

namespace BuildServer.Control

structure Flags where
  stop : Bool
  restart : Bool
  deriving DecidableEq, Repr

/-- One store to a flag. -/
inductive Store where
  | stop
  | restart
  deriving DecidableEq, Repr

namespace Flags

def clear : Flags := ⟨false, false⟩

def store (f : Flags) : Store → Flags
  | .stop => { f with stop := true }
  | .restart => { f with restart := true }

/-- The stores of a request to stop, in order. -/
def stopStores : List Store := [.stop]

/-- The stores of a request to restart, in order. -/
def restartStores : List Store := [.restart, .stop]

def requestStop (f : Flags) : Flags := stopStores.foldl store f

def requestRestart (f : Flags) : Flags := restartStores.foldl store f

end Flags

end BuildServer.Control
