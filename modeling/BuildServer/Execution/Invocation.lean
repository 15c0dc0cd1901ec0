-- SUMMARY: Program invocations and what comes of them.
import BuildServer.FileSystem.Error

/-!
# Invocations

An invocation is a program with its arguments and, if given, the directory that
it runs in. Arguments are passed on as they are; the line that an invocation is
shown as has no quotes and is for reading only.
-/

namespace BuildServer

structure Invocation where
  program : String
  args : List String
  cwd : Option String
  deriving DecidableEq, Repr

namespace Invocation

def of (program : String) : Invocation := ⟨program, [], none⟩

def arg (i : Invocation) (a : String) : Invocation := { i with args := i.args ++ [a] }

def addArgs (i : Invocation) (as : List String) : Invocation := { i with args := i.args ++ as }

def within (i : Invocation) (dir : String) : Invocation := { i with cwd := some dir }

/-- The program and its arguments with spaces between them. -/
def line (i : Invocation) : String :=
  " ".intercalate (i.program :: i.args)

end Invocation

/-! ## Outcome -/

/-- How a program ended. -/
inductive ExitStatus where
  | code (n : Int)
  /-- Not by itself: it was stopped by a signal. -/
  | terminated
  deriving DecidableEq, Repr

namespace ExitStatus

def isSuccess (e : ExitStatus) : Bool := e == .code 0

def message : ExitStatus → String
  | .code n => s!"exit status {n}"
  | .terminated => "termination by signal"

/-- The status that a wait status word stands for: its low seven bits are zero
    for a program that ended by itself, and the next eight bits are then the
    code. -/
def ofWaitWord (w : BitVec 32) : ExitStatus :=
  if w &&& 0x7f = 0 then .code ((w >>> 8) &&& 0xff).toNat else .terminated

end ExitStatus

/-- What came of an attempt to run a program. -/
inductive RunOutcome where
  | exited (status : ExitStatus)
  | notStarted (cause : IoError)
  /-- The attempt took its caller down with it. -/
  | crashed
  deriving DecidableEq, Repr

end BuildServer
