-- SUMMARY: Running shell scripts and the programs they start.
import BuildServer.Execution.SearchPath
import BuildServer.Shell.Expansion

/-!
# Running scripts

A script takes a shell from one state to another. What a script is made of is
run by a given `Run`; `run` closes that circle, with a number that bounds the
depth. Programs run on a state of their own, and so do the commands whose output
is wanted.
-/

namespace BuildServer.Shell

/-! ## Redirections -/

/-- Where commands read and write. -/
structure Streams where
  /-- Their input, if it is not that of the shell. -/
  input : Option (List UInt8)
  /-- The path that their output goes to, if it does not go where that of the
      shell goes. -/
  output : Option String
  deriving DecidableEq, Repr

namespace Streams

/-- Those of the shell. -/
def inherited : Streams := ⟨none, none⟩

/-- Where output goes that nobody sees. -/
def nowhere : String := "/dev/null"

/-- Open what redirections name. Their files are emptied or created right away.
    Gives nothing if one of them cannot be opened. -/
def openAll (run : Run) : List Redirect → Streams → State → Option Streams × State
  | [], streams, s => (some streams, s)
  | r :: rest, streams, s =>
    let (target, s) := r.target.eval run s
    match r.kind with
    | .input =>
      match s.fs.read target with
      | .ok bytes => openAll run rest { streams with input := some bytes } s
      | .error _ => (none, s)
    | .document => openAll run rest { streams with input := some (Text.utf8Encode target) } s
    | .duplicate =>
      let aside := r.fd = 1 ∧ target ≠ "1"
      openAll run rest (if aside then { streams with output := some nowhere } else streams) s
    | kind =>
      match s.fs.write target (if kind = .append then id else fun _ => []) with
      | .ok fs =>
        let place := ((fs.stat target).toOption.map (·.1.path)).getD target
        openAll run rest (if r.fd = 1 then { streams with output := some place } else streams)
          { s with fs }
      | .error _ => (none, s)

/-- Run something on other streams than those of the shell. -/
def around (streams : Streams) (body : State → Flow × State) (s : State) : Flow × State :=
  let (flow, t) := body { s with input := streams.input.getD s.input, output := [] }
  let t := match streams.output with
    | none => { t with output := s.output ++ t.output }
    | some path =>
      { t with fs := (t.fs.write path (· ++ t.output)).toOption.getD t.fs, output := s.output }
  (flow, if streams.input.isSome then { t with input := s.input } else t)

end Streams

/-- Run something with redirections, or else go on with `failed`. -/
def redirecting (run : Run) (rs : List Redirect) (failed body : State → Flow × State)
    (s : State) : Flow × State :=
  if rs.isEmpty then body s
  else match Streams.openAll run rs .inherited s with
    | (some streams, s) => Flow.sound s (streams.around body)
    | (none, s) => Flow.sound s failed

/-! ## Programs -/

/-- Run the text of a script. -/
def runText (run : Run) (text : String) (s : State) : Flow × State :=
  run false (Script.ofText text) s

/-- What a shell does at its end, unless a signal ends it. -/
def atEnd (run : Run) (r : Flow × State) : Flow × State :=
  match r.1, r.2.traps.lookup 0 with
  | .killed signal, _ => (.killed signal, r.2)
  | flow, none => (flow, r.2)
  | _, some action =>
    match runText run action { r.2 with traps := r.2.traps.filter (·.1 != 0) } with
    | (.more, s) => (.exit, { s with status := r.2.status })
    | r => r

/-- Run the script in a file, or the one that is the input. -/
def runInput (run : Run) : List String → State → Flow × State
  | file :: args, s =>
    match s.fs.read file with
    | .ok bytes => runText run (Text.utf8DecodeLossy bytes) { s with name := file, args }
    | .error _ => s.ended 2
  | [], s => runText run (Text.utf8DecodeLossy s.input) { s with input := [] }

/-- A shell as a program: its options, then a script or a file that holds one. -/
def shell (run : Run) : List String → State → Flow × State
  | "--" :: args, s => atEnd run (runInput run args s)
  | arg :: args, s =>
    match arg.toList with
    | '-' :: letters =>
      let s := letters.foldl (Builtin.setOption true) s
      if letters.contains 'c' then
        match args with
        | [] => s.ended 2
        | text :: args =>
          atEnd run (runText run text { s with name := args.headD s.name, args := args.tail })
      else shell run args s
    | _ => atEnd run (runInput run (arg :: args) s)
  | [], s => atEnd run (runInput run [] s)

/-- The program and the argument that the first line of a script names as its
    interpreter, or nothing if it has no such line. -/
def interpreter? (content : List UInt8) : Option (List String) :=
  let line := Text.utf8DecodeLossy (content.takeWhile (· != 10))
  match line.toList with
  | '#' :: '!' :: cs =>
    let isBlank (c : Char) : Bool := c == ' ' || c == '\t'
    let cs := ((cs.dropWhile isBlank).reverse.dropWhile isBlank).reverse
    let name := cs.takeWhile fun c => !isBlank c
    let argument := (cs.dropWhile fun c => !isBlank c).dropWhile isBlank
    if name.isEmpty then none
    else some (String.ofList name :: if argument.isEmpty then [] else [String.ofList argument])
  | _ => none

/-- How often one program may stand for another. -/
def interpreterLimit : Nat := 5

/-- Bytes of the longest argument. -/
def argumentLimit : Nat := 131071

/-- Run the program that the arguments name after settings of variables, with
    `again` to run it. -/
def inEnvironment (again : String → List String → State → Except IoError (Flow × State))
    (args : List String) (s : State) : Except IoError (Flow × State) :=
  let cleared := args.head? == some "-i"
  let s := if cleared then { s with vars := ∅ } else s
  let args := if cleared then args.tail else args
  let s := Builtin.exportAll s (args.takeWhile (·.toList.contains '='))
  match args.dropWhile (·.toList.contains '=') with
  | [] => .ok (s.ended 0)
  | name :: args =>
    let dirs := if s.vars["PATH"]?.isSome then s.searchDirs else ["/bin", "/usr/bin"]
    match (SearchPath.mk dirs).locate s.fs name with
    | some path => again path args { s with name, args }
    | none => .ok (s.ended 127)

/-- Run the program at a path on a state that is its own, with `again` to run the
    program that stands for it. -/
def execWith (run : Run) (again : String → List String → State → Except IoError (Flow × State))
    (path : String) (args : List String) (s : State) : Except IoError (Flow × State) :=
  match s.fs.stat path with
  | .error e => .error e
  | .ok (_, node) =>
    if !node.isExecutable then .error .permissionDenied
    else if args.any fun a => argumentLimit < (Text.utf8Encode a).length then
      .error .argumentsTooLong
    else match node with
      | .program "sh" => .ok (shell run args s)
      | .program "env" => inEnvironment again args s
      | .program name => .ok ((Utility.program name args s).getD (s.ended 127))
      | .file content _ =>
        match interpreter? content with
        | some line => again (line.headD "") (line.tail ++ path :: args) s
        | none => .error .notExecutable
      | _ => .error .permissionDenied

/-- Run the program at a path, which may stand for another at most so many times. -/
def exec (run : Run) : Nat → String → List String → State → Except IoError (Flow × State)
  | 0 => execWith run fun _ _ _ => .error .tooManyLinks
  | n + 1 => execWith run (exec run n)

/-- The exit status of a command that cannot be run. -/
def unrunnable : IoError → Nat
  | .notFound => 127
  | _ => 126

/-- Run a program. A file that is neither a program nor names its interpreter is a
    script. `own` is the shell as the program sees it. -/
def launch (run : Run) (name : String) (args : List String) (own s : State) : Flow × State :=
  match (SearchPath.mk own.searchDirs).locate own.fs name with
  | none =>
    s.ended (if name.toList.contains '/' then
      unrunnable ((own.fs.stat name).toOption.elim .notFound fun _ => .permissionDenied) else 127)
  | some path =>
    let child := own.child name args
    let (flow, child) := match exec run interpreterLimit path args child with
      | .ok r => r
      | .error .notExecutable => shell run (path :: args) child
      | .error e => child.ended (unrunnable e)
    (match flow with
      | .killed signal => .killed signal
      | _ => .more, s.after child)

/-- Run a program as a command. A signal that ends it shows in the exit status. -/
def launchCommand (run : Run) (name : String) (args : List String) (own s : State) :
    Flow × State :=
  match launch run name args own s with
  | (.killed signal, s) => s.ended (128 + signal)
  | r => r

/-! ## Commands -/

/-- Run a script in place of a function's name. -/
def call (here : Run) (body : Script) (args : List String) (s : State) : Flow × State :=
  let (flow, inner) := here false body { s with args, loops := 0 }
  (flow.returned, { inner with args := s.args, loops := s.loops })

/-- Send signals. A signal that a trap waits for does not end the shell. -/
def signal (here : Run) (args : List String) (s : State) : Flow × State :=
  match Builtin.kill s args with
  | (.killed signal, s) =>
    match s.traps.lookup signal with
    | some action =>
      if signal = 9 then (.killed signal, s)
      else Flow.bind (runText here action { s with status := 0 }) fun s => s.ended 0
    | none => (.killed signal, s)
  | r => r

/-- Where a command is found: its path, or its name if the shell runs it itself. -/
def whereabouts (s : State) (name : String) : Option String :=
  if Builtin.names.contains name || (s.functions.lookup name).isSome then some name
  else (SearchPath.mk s.searchDirs).locate s.fs name

/-- Run a command that is no function. Scripts that it runs in this shell itself are
    run by `here`. -/
def plainCommand (run here : Run) (name : String) (args : List String) (own s : State) :
    Flow × State :=
  match name with
  | "eval" => runText here (" ".intercalate args) s
  | "." =>
    match (args.head?.map s.fs.read) with
    | some (.ok bytes) =>
      let (flow, s) := runText here (Text.utf8DecodeLossy bytes) s
      (flow.returned, s)
    | _ => (.exit, { s with status := 2 })
  | "exec" =>
    match args with
    | [] => s.ended 0
    | name :: args =>
      let found := ((SearchPath.mk own.searchDirs).locate own.fs name).isSome
      Flow.bind (launch run name args own s) fun s =>
        (.exit, if found then { s with traps := [] } else s)
  | "kill" => signal here args s
  | name => (Builtin.run? name args s).getD (launchCommand run name args own s)

/-- Run a command with its arguments. -/
def command (run here : Run) (name : String) (args : List String) (own s : State) : Flow × State :=
  match s.functions.lookup name, name, args with
  | some body, _, _ => call here body args s
  | none, "command", "-v" :: names =>
    match names.head?.bind (whereabouts s) with
    | some place => (s.print (place ++ "\n")).ended 0
    | none => s.ended 127
  | none, "command", name :: args => plainCommand run here name args own s
  | none, "type", names => s.ended (if names.all fun n => (whereabouts s n).isSome then 0 else 127)
  | none, name, args => plainCommand run here name args own s

/-- Run a simple command. Assignments without a command stay; those before a
    command are for the program that it starts. -/
def simple (run here : Run) (assignments : List (String × Word)) (words : List Word)
    (redirects : List Redirect) (s : State) : Flow × State :=
  let (fields, s) := evalFields run words s
  Flow.sound s fun s =>
  match fields with
  | [] =>
    let runsCommands := assignments.any fun a => a.2.any fun
      | .output .. => true
      | _ => false
    redirecting run redirects (·.ended 2) (fun s =>
      let s := assign run false assignments s
      Flow.sound s fun s => s.ended (if runsCommands then s.status else 0)) s
  | name :: args =>
    let isSpecial := Builtin.special.contains name
    redirecting run redirects
      (fun s => (if isSpecial then .exit else .more, { s with status := 2 }))
      (fun s =>
        let own := assign run true assignments s
        Flow.sound own fun own =>
          command run here name args own
            (if isSpecial then own else { s with fs := own.fs, input := own.input })) s

/-- Run one script after the other. -/
def sequence (run : Run) (tested : Bool) : Script → State → Flow × State
  | .seq first second, s => Flow.bind (run tested first s) (sequence run tested second)
  | script, s => run tested script s

/-- Run something as part of a loop. -/
def inLoop (body : State → Flow × State) (s : State) : Flow × State :=
  let (flow, t) := body { s with loops := s.loops + 1 }
  (flow, { t with loops := s.loops })

/-- Run something for each of some values of a variable. -/
def forEach (name : String) (body : State → Flow × State) : List String → State → Flow × State
  | [], s => (.more, s)
  | value :: values, s =>
    match Flow.round (inLoop body (s.setVar name value)) with
    | .ok s => forEach name body values s
    | .error r => r

/-- Run something as long as a test succeeds, or as long as it fails, but at most
    so many times. -/
def rounds (untilTrue : Bool) (test body : State → Flow × State) : Nat → State → Flow × State
  | 0, s => (.exit, { s with status := 2 })
  | n + 1, s =>
    match Flow.round (inLoop test s) with
    | .error r => r
    | .ok t =>
      if (t.status == 0) == untilTrue then t.ended s.status
      else match Flow.round (inLoop body t) with
        | .ok s => rounds untilTrue test body n s
        | .error r => r

/-- How often a loop may go round. -/
def roundLimit : Nat := 1000000

/-- Run the first branch of which a pattern accepts the text. -/
def select (run : Run) (tested : Bool) (text : String) : Script → State → Flow × State
  | .branch patterns body others, s =>
    let (found, s) := patterns.foldl (fun (found, s) w =>
      if found then (found, s)
      else
        let (letters, s) := w.whole run s
        ((Pattern.ofLetters letters).accepts text.toList, s)) (false, s)
    if found then run tested body s else select run tested text others s
  | _, s => s.ended 0

/-- Run a script, at most to the given depth. -/
def run : Nat → Run
  | 0, _, _, s => (.exit, { s with status := 2 })
  | n + 1, tested, script, s =>
    match script with
    | .skip => s.ended 0
    | .broken => (.exit, { s with status := 2 })
    | .simple assignments words redirects =>
      let here (tested' : Bool) := run n (tested || tested')
      Flow.strictly tested (simple (run n) here assignments words redirects s)
    | .seq .. => sequence (run n) tested script s
    | .both first second =>
      Flow.bind (run n true first s) fun s =>
        if s.status = 0 then run n tested second s else (.more, s)
    | .either first second =>
      Flow.bind (run n true first s) fun s =>
        if s.status = 0 then (.more, s) else run n tested second s
    | .negate body => Flow.bind (run n true body s) fun s => s.test (s.status != 0)
    | .pipe source sink =>
      let (flow, left) := run n tested source s.apart
      let (flow', right) := run n tested sink
        { s.apart with fs := { left.fs with cwd := s.fs.cwd }, input := left.output }
      Flow.bind (flow.outside, { s.after right with input := left.input }) fun s =>
        Flow.strictly tested (flow'.outside, s)
    | .cond test yes no =>
      Flow.bind (run n true test s) fun s => run n tested (if s.status = 0 then yes else no) s
    | .each name words body =>
      let (values, s) := evalFields (run n) words s
      Flow.sound s fun s => forEach name (run n tested body) values { s with status := 0 }
    | .loop untilTrue test body =>
      rounds untilTrue (run n true test) (run n tested body) roundLimit s
    | .select subject branches =>
      let (text, s) := subject.eval (run n) s
      Flow.sound s (select (run n) tested text branches)
    | .branch .. => select (run n) tested "" script s
    | .define name body => { s with functions := (name, body) :: s.functions }.ended 0
    | .apart body =>
      let (flow, inner) := atEnd (run n) (run n tested body s.apart)
      Flow.strictly tested (flow.outside, s.after inner)
    | .background body =>
      let (flow, inner) := atEnd (run n) (run n false body { s.apart with input := [] })
      let status := match flow with
        | .killed signal => 128 + signal
        | _ => inner.status
      let t := s.after inner
      ({ t with input := s.input, jobs := status :: s.jobs }).ended 0
    | .redirected body redirects =>
      redirecting (run n) redirects (·.ended 2) (run n tested body) s

end BuildServer.Shell
