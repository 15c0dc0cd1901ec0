-- SUMMARY: What a running shell works on: variables, arguments, input and output.
import BuildServer.FileSystem.Change
import BuildServer.Shell.Script

/-!
# Shells

A shell holds its variables, functions and arguments, the file system with its
working directory, the input that is left and the output so far. What it writes
to the error stream is seen by nobody and therefore not kept.
-/

namespace BuildServer.Shell

structure Variable where
  value : String
  /-- Whether programs that the shell starts get the variable. -/
  exported : Bool
  deriving DecidableEq, Repr

structure State where
  fs : FileSystem
  name : String
  args : List String
  vars : Std.ExtTreeMap String Variable
  status : Nat
  input : List UInt8
  output : List UInt8
  /-- Whether a command that fails ends the shell. -/
  strict : Bool
  /-- Whether a variable that is used must have been set. -/
  declared : Bool
  /-- Whether a word could not be expanded, which ends the shell. -/
  fault : Bool
  functions : List (String × Script)
  /-- What to run on a signal, or, with the number zero, at the end. -/
  traps : List (Nat × String)
  /-- The exit statuses of what was started in the background, the latest first. -/
  jobs : List Nat
  /-- How many loops are being run. -/
  loops : Nat
  pid : Nat

/-- How a command leaves what it is part of. -/
inductive Flow where
  | more
  | exit
  | killed (signal : Nat)
  /-- Leave a loop, after leaving so many loops in it. -/
  | leave (inner : Nat)
  /-- Go round a loop again, after leaving so many loops in it. -/
  | again (inner : Nat)
  /-- Leave a function. -/
  | back
  deriving DecidableEq, Repr

namespace State

/-- The shell after a command with the given exit status. -/
def ended (s : State) (status : Nat) : Flow × State := (.more, { s with status })

def test (s : State) (b : Bool) : Flow × State := s.ended (if b then 0 else 1)

def print (s : State) (text : String) : State :=
  { s with output := s.output ++ Text.utf8Encode text }

def var (s : State) (name : String) : String := ((s.vars[name]?).map (·.value)).getD ""

/-- Set a variable, which stays exported if it was. -/
def setVar (s : State) (name value : String) : State :=
  let exported := ((s.vars[name]?).map (·.exported)).getD false
  { s with vars := s.vars.insert name ⟨value, exported⟩ }

def exportVar (s : State) (name : String) : State :=
  { s with vars := s.vars.insert name ⟨s.var name, true⟩ }

/-- The number of the latest job. Jobs have numbers that no shell has. -/
def jobNumber (s : State) : Nat := 1000000 + s.jobs.length

/-- The position of a job in the list of jobs. -/
def job? (s : State) (number : Nat) : Option Nat :=
  if 1000000 < number ∧ number ≤ s.jobNumber then some (s.jobNumber - number) else none

/-- The values of a parameter, if it is set. -/
def values? (s : State) (name : String) : Option (List String) :=
  match name with
  | "@" | "*" => if s.args.isEmpty then none else some s.args
  | "#" => some [toString s.args.length]
  | "?" => some [toString s.status]
  | "$" => some [toString s.pid]
  | "!" => if s.jobs.isEmpty then none else some [toString s.jobNumber]
  | "-" => some [if s.strict then "e" else ""]
  | "0" => some [s.name]
  | name =>
    match name.toNat? with
    | some n => s.args[n - 1]?.map ([·])
    | none => s.vars[name]?.map ([·.value])

/-- The values of a parameter. One that is not set is empty, except for the list
    of arguments. -/
def values (s : State) (name : String) : List String :=
  (s.values? name).getD (if name = "@" ∨ name = "*" then [] else [""])

/-- Directories in which programs are looked up. -/
def searchDirs (s : State) : List String :=
  ((s.var "PATH").toList.splitOn ':').map String.ofList

/-- A copy of the shell that leaves it alone. Only signals without effect stay so. -/
def apart (s : State) : State :=
  { s with output := [], traps := s.traps.filter (·.2.isEmpty), loops := 0 }

/-- A shell for a program that this one starts. -/
def child (s : State) (name : String) (args : List String) : State :=
  { s.apart with
    name, args
    vars := s.vars.filter fun _ v => v.exported
    status := 0
    strict := false
    declared := false
    functions := []
    jobs := []
    pid := s.pid + 1 }

/-- Go on after a child, or after commands that ran apart. -/
def after (s inner : State) : State :=
  { s with
    fs := { inner.fs with cwd := s.fs.cwd }
    status := inner.status
    input := inner.input
    output := s.output ++ inner.output }

end State

end BuildServer.Shell
