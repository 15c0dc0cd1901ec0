-- SUMMARY: The commands that a shell runs itself.
import BuildServer.Shell.Utility

/-!
# Commands of the shell

These commands work on the shell itself: on its variables and options, its
directory, its traps and jobs, and on how it goes on. Where one of them has an
effect on a process, that process is the shell or one of its jobs.
-/

namespace BuildServer.Shell

namespace Builtin

/-! ## Signals -/

/-- Signals by name. -/
def signals : List (String × Nat) :=
  [("HUP", 1), ("INT", 2), ("QUIT", 3), ("ILL", 4), ("TRAP", 5), ("ABRT", 6), ("BUS", 7),
    ("FPE", 8), ("KILL", 9), ("USR1", 10), ("SEGV", 11), ("USR2", 12), ("PIPE", 13),
    ("ALRM", 14), ("TERM", 15), ("STKFLT", 16), ("CHLD", 17), ("CONT", 18), ("STOP", 19),
    ("TSTP", 20), ("TTIN", 21), ("TTOU", 22), ("URG", 23), ("XCPU", 24), ("XFSZ", 25),
    ("VTALRM", 26), ("PROF", 27), ("WINCH", 28), ("IO", 29), ("PWR", 30), ("SYS", 31)]

/-- The number of a signal that is given by its name or its number. -/
def signal? (name : String) : Option Nat :=
  signals.lookup (name.map Char.toUpper) <|> name.toNat?.filter (· ≤ 64)

/-- Signals that do nothing to whoever does not wait for them. -/
def harmless : List Nat := [0, 17, 18, 23, 28]

/-- The signal that is to be sent, and to whom. -/
def killArguments : List String → Option Nat × List String
  | "-s" :: name :: targets => (signal? name, targets)
  | "--" :: targets => (some 15, targets)
  | first :: targets =>
    match first.toList with
    | '-' :: name => (signal? (String.ofList name), targets)
    | _ => (some 15, first :: targets)
  | [] => (none, [])

/-- Send a signal to the shell itself or to one of its jobs. -/
def kill (s : State) (args : List String) : Flow × State :=
  match killArguments args with
  | (none, _) | (_, []) => s.ended (if args = ["-l"] then 0 else 2)
  | (some signal, targets) =>
    let jobs := targets.filterMap fun t => t.toNat?.bind s.job?
    if targets.any fun t => t.toInt?.isNone then s.ended 2
    else if targets.contains (toString s.pid) then
      if harmless.contains signal || s.traps.contains (signal, "") then s.ended 0
      else (.killed signal, s)
    else if jobs.isEmpty then s.ended 1
    else { s with jobs := jobs.foldl (fun l i => l.set i (128 + signal)) s.jobs }.ended 0

/-- The number that an argument is. -/
def number? (arg : String) : Option Nat :=
  let digits := match arg.toList.dropWhile isFieldBlank with
    | '+' :: cs => cs
    | cs => cs
  (String.ofList digits).toNat?.filter (· ≤ 2147483647)

/-- The exit status of a job, or that there is no such job. -/
def wait (s : State) (args : List String) : Nat :=
  match args.getLast? with
  | none => 0
  | some arg =>
    match number? arg with
    | some n => ((s.job? n).bind (s.jobs[·]?)).getD 127
    | none => 2

/-- The number of what a trap waits for. -/
def trapNumber? (name : String) : Option Nat := if name = "EXIT" then some 0 else signal? name

/-- Set traps, or take them away. -/
def setTraps (s : State) : List String → Flow × State
  | [] => s.ended 0
  | "--" :: args => setTraps s args
  | [name] =>
    match trapNumber? name with
    | some n => { s with traps := s.traps.filter (·.1 != n) }.ended 0
    | none => s.ended 1
  | action :: names =>
    let numbers := names.filterMap trapNumber?
    let others := s.traps.filter fun t => !numbers.contains t.1
    let traps := if action = "-" then others else numbers.map (·, action) ++ others
    { s with traps }.ended (if numbers.length = names.length then 0 else 1)

/-! ## Variables and options -/

/-- Share words out to variables, the last of which gets all that are left. -/
def assignWords : List String → List (List Char) → State → State
  | [], _, s => s
  | [name], words, s => s.setVar name (" ".intercalate (words.map String.ofList))
  | name :: names, words, s =>
    assignWords names words.tail (s.setVar name (String.ofList (words.headD [])))

/-- Put a line of input into variables. Fails at the end of the input. -/
def readLine (s : State) (args : List String) : Flow × State :=
  let line := s.input.takeWhile (· != 10)
  let whole := line.length < s.input.length
  let s := { s with input := s.input.drop (line.length + 1) }
  let names := Utility.operands args
  let words := ((Text.utf8DecodeLossy line).toList.splitOnP fun c => c == ' ' || c == '\t').filter
    fun w => !w.isEmpty
  (assignWords names words s).test whole

def changeDir (s : State) (args : List String) : Flow × State :=
  let target := (Utility.operands args).headD (s.var "HOME")
  if target.isEmpty then s.ended 0
  else match s.fs.stat (if target = "-" then s.var "OLDPWD" else target) with
  | .ok (place, .directory) =>
    let s := s.setVar "OLDPWD" (s.var "PWD")
    ({ s with fs.cwd := place }.setVar "PWD" place.path).ended 0
  | _ => s.ended 2

/-- The status that an argument asks for. -/
def statusOf (s : State) : List String → Nat
  | [] => s.status
  | arg :: _ => ((number? arg).map (· % 256)).getD 2

/-- Set an option of the shell. Most of them change nothing here. -/
def setOption (on : Bool) (s : State) (c : Char) : State :=
  match c with
  | 'e' => { s with strict := on }
  | 'u' => { s with declared := on }
  | _ => s

/-- The letter of an option that is given by its name. -/
def optionLetter : String → Char
  | "errexit" => 'e'
  | "nounset" => 'u'
  | _ => '-'

/-- Set options and arguments of the shell. -/
def setOptions (s : State) : List String → State
  | [] => s
  | "-o" :: name :: rest => setOptions (setOption true s (optionLetter name)) rest
  | "+o" :: name :: rest => setOptions (setOption false s (optionLetter name)) rest
  | "--" :: rest => { s with args := rest }
  | arg :: rest =>
    match arg.toList with
    | '-' :: letters => setOptions (letters.foldl (setOption true) s) rest
    | '+' :: letters => setOptions (letters.foldl (setOption false) s) rest
    | _ => { s with args := arg :: rest }

/-- The name and value of an argument of the form `name=value`. -/
def assigned (arg : String) : String × Option String :=
  let name := arg.toList.takeWhile (· != '=')
  (String.ofList name,
    if name.length < arg.length then some (String.ofList (arg.toList.drop (name.length + 1)))
    else none)

/-- Set the variables that have a value among the arguments. -/
def assignAll (s : State) (args : List String) : State :=
  args.foldl (fun s arg =>
    match assigned arg with
    | (name, some value) => s.setVar name value
    | (_, none) => s) s

/-- Export names, some of them with a value. -/
def exportAll (s : State) (args : List String) : State :=
  (Utility.operands args).foldl (fun s arg => s.exportVar (assigned arg).1) (assignAll s args)

/-- Forget variables, or functions. -/
def unset (s : State) (args : List String) : State :=
  let names := Utility.operands args
  let isFunction (name : String) : Bool := Utility.hasOption args 'f' || s.vars[name]?.isNone
  { s with
    vars := if Utility.hasOption args 'f' then s.vars else names.foldl (·.erase ·) s.vars
    functions := s.functions.filter fun f => !(names.contains f.1 && isFunction f.1) }

/-! ## Commands -/

/-- Leave loops, if there are any. -/
def leaveLoops (s : State) (flow : Nat → Flow) (args : List String) : Flow × State :=
  let wanted := (args.head?.bind number?).getD 1
  if s.loops = 0 then s.ended 0
  else (flow (min wanted s.loops - 1), { s with status := 0 })

/-- Programs that the shell runs itself. -/
def ownPrograms : List String := ["true", "false", "test", "[", "echo", "printf", "pwd"]

/-- Commands whose failure to start ends the shell. -/
def special : List String :=
  [":", ".", "break", "continue", "eval", "exec", "exit", "export", "readonly", "return", "set",
    "shift", "times", "trap", "unset"]

/-- Names of commands that the shell runs itself. -/
def names : List String :=
  special ++ ownPrograms ++ ["kill", "wait", "cd", "read", "local", "umask", "ulimit", "hash",
    "alias", "jobs", "command", "type"]

/-- Run a command of the shell itself, if it has one of this name that needs no
    other command. -/
def run? (name : String) (args : List String) (s : State) : Option (Flow × State) :=
  match name with
  | ":" => some (s.ended 0)
  | "exit" => some (.exit, { s with status := statusOf s args })
  | "return" => some (.back, { s with status := statusOf s args })
  | "break" => some (leaveLoops s .leave args)
  | "continue" => some (leaveLoops s .again args)
  | "kill" => some (kill s args)
  | "wait" => some (s.ended (wait s args))
  | "trap" => some (setTraps s args)
  | "cd" => some (changeDir s args)
  | "read" => some (readLine s args)
  | "shift" =>
    match number? (args.headD "1") with
    | some n =>
      if s.args.length < n then some (.exit, { s with status := 2 })
      else some ({ s with args := s.args.drop n }.ended 0)
    | none => some (.exit, { s with status := 2 })
  | "export" => some ((exportAll s args).ended 0)
  | "readonly" | "local" => some ((assignAll s args).ended 0)
  | "unset" => some ((unset s args).ended 0)
  | "set" => some ((setOptions s args).ended 0)
  | "umask" | "ulimit" | "hash" | "alias" | "times" | "jobs" => some (s.ended 0)
  | _ =>
    if ownPrograms.contains name then Utility.program name args s else none

end Builtin

end BuildServer.Shell
