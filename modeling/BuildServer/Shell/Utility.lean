-- SUMMARY: The programs of the machine that need no other program.
import BuildServer.Shell.State

/-!
# Utilities

A utility is a program that the machine has. It works on the state of the shell
that starts it, of which it changes only the file system, the input that is left
and the output.
-/

namespace BuildServer.Shell

namespace Utility

/-! ## Conditions -/

def unary (s : State) (operator operand : String) : Option Bool :=
  let node : Option Node := (s.fs.stat operand).toOption.map (·.2)
  match operator with
  | "-n" => some !operand.isEmpty
  | "-z" => some operand.isEmpty
  | "-e" => some node.isSome
  | "-r" => some node.isSome
  | "-w" => some node.isSome
  | "-f" => some (node.any Node.isRegular)
  | "-d" => some (node.any Node.isDirectory)
  | "-x" => some (node.any fun n => n.isDirectory || n.isExecutable)
  | "-p" => some (node.any fun | .fifo _ => true | _ => false)
  | "-c" => some (node.any fun | .device => true | _ => false)
  | "-t" | "-b" | "-S" | "-u" | "-g" | "-k" => some false
  | "-s" => some (node.any fun
    | .file content _ => !content.isEmpty
    | .directory | .program _ => true
    | _ => false)
  | "-L" | "-h" =>
    some (match s.fs.walk false operand with
      | .ok (.found _ (.link _)) => true
      | _ => false)
  | _ => none

def binary (left operator right : String) : Option Bool :=
  let compare (f : Int → Int → Bool) : Option Bool := do
    return f (← left.toInt?) (← right.toInt?)
  match operator with
  | "=" => some (left == right)
  | "!=" => some (left != right)
  | "<" => some (left < right)
  | ">" => some (right < left)
  | "-a" => some (!left.isEmpty && !right.isEmpty)
  | "-o" => some (!left.isEmpty || !right.isEmpty)
  | "-eq" => compare (· == ·)
  | "-ne" => compare (· != ·)
  | "-lt" => compare (decide <| · < ·)
  | "-le" => compare (decide <| · ≤ ·)
  | "-gt" => compare (decide <| · > ·)
  | "-ge" => compare (decide <| · ≥ ·)
  | _ => none

/-- The value of a condition, or nothing if it makes no sense. The number bounds
    the words. -/
def condition (s : State) : Nat → List String → Option Bool
  | 0, _ => some false
  | _ + 1, [] => some false
  | _ + 1, [text] => some !text.isEmpty
  | _ + 1, [operator, operand] =>
    if operator = "!" then some operand.isEmpty else unary s operator operand
  | n + 1, left :: operator :: right :: rest =>
    let args := left :: operator :: right :: rest
    let around (word : String) : Option (Bool × Bool) := do
      if args.contains word then
        let before := args.takeWhile (· != word)
        let after := (args.dropWhile (· != word)).tail
        return (← condition s n before, ← condition s n after)
      else none
    match rest, binary left operator right with
    | [], some b => some b
    | _, _ =>
      if left = "!" then (condition s n (operator :: right :: rest)).map (!·)
      else match around "-o", around "-a" with
        | some (a, b), _ => some (a || b)
        | none, some (a, b) => some (a && b)
        | none, none => none

def test (s : State) (args : List String) : Flow × State :=
  match condition s (args.length + 1) args with
  | some b => s.test b
  | none => s.ended 2

/-- The same with a bracket at the end. -/
def bracket (s : State) (args : List String) : Flow × State :=
  match args.reverse with
  | "]" :: rest => test s rest.reverse
  | _ => s.ended 2

/-! ## Output -/

/-- Characters after the backslash escapes of `printf` and `echo`. -/
def unescape : List Char → List Char
  | '\\' :: 'n' :: cs => '\n' :: unescape cs
  | '\\' :: 't' :: cs => '\t' :: unescape cs
  | '\\' :: 'r' :: cs => '\r' :: unescape cs
  | '\\' :: '\\' :: cs => '\\' :: unescape cs
  | c :: cs => c :: unescape cs
  | [] => []

def echo (s : State) (args : List String) : Flow × State :=
  let (words, final) := match args with
    | "-n" :: words => (words, "")
    | words => (words, "\n")
  (s.print (String.ofList (unescape (" ".intercalate words).toList) ++ final)).ended 0

/-- Fill a format once. Gives the text and the arguments that are left. -/
def fill : List Char → List String → List Char × List String
  | '%' :: '%' :: cs, args => let (text, rest) := fill cs args; ('%' :: text, rest)
  | '%' :: 's' :: cs, args =>
    let (text, rest) := fill cs args.tail
    ((args.headD "").toList ++ text, rest)
  | '%' :: 'b' :: cs, args =>
    let (text, rest) := fill cs args.tail
    (unescape (args.headD "").toList ++ text, rest)
  | '%' :: 'd' :: cs, args =>
    let (text, rest) := fill cs args.tail
    ((toString ((args.headD "0").toInt?.getD 0)).toList ++ text, rest)
  | c :: cs, args => let (text, rest) := fill cs args; (c :: text, rest)
  | [], args => ([], args)

/-- Fill a format again and again as long as that uses arguments up. -/
def fillAll (format : List Char) : Nat → List String → List Char
  | 0, _ => []
  | n + 1, args =>
    let (text, rest) := fill format args
    if rest.isEmpty || rest.length = args.length then text else text ++ fillAll format n rest

def printf (s : State) (args : List String) : Flow × State :=
  match args with
  | [] => s.ended 2
  | format :: args =>
    let text := fillAll (unescape format.toList) (args.length + 1) args
    (s.print (String.ofList text)).ended 0

/-! ## Files -/

/-- Do something with every argument. Gives the status 1 if one of them fails. -/
def forAll (s : State) (act : State → String → Except IoError State) :
    List String → Flow × State
  | [] => s.ended 0
  | arg :: args =>
    match act s arg with
    | .ok s => forAll s act args
    | .error _ => let (_, s) := forAll s act args; s.ended 1

/-- Arguments without options. After two dashes there are none. -/
def operands (args : List String) : List String :=
  (args.takeWhile (· != "--")).filter (fun a => !(a.toList.head? == some '-' && 1 < a.length))
    ++ (args.dropWhile (· != "--")).tail

def hasOption (args : List String) (c : Char) : Bool :=
  (args.takeWhile (· != "--")).any fun a => a.toList.head? == some '-' && a.toList.contains c

/-- The same where there must be an argument. -/
def forSome (s : State) (act : State → String → Except IoError State) (args : List String) :
    Flow × State :=
  if args.isEmpty then s.ended 1 else forAll s act args

/-- Do something with a first and a last argument, or with each argument and the
    last one. -/
def onPair (s : State) (act : String → String → State → Except IoError State)
    (args : List String) : Flow × State :=
  match args.reverse with
  | target :: source :: sources =>
    forAll s (fun s source => act source target s) ((source :: sources).reverse)
  | _ => s.ended 1

def withFs (s : State) (r : Except IoError FileSystem) : Except IoError State :=
  r.map fun fs => { s with fs }

/-- Create a file unless something is there. -/
def touch (s : State) (path : String) : Except IoError State :=
  match s.fs.stat path with
  | .ok _ => .ok s
  | .error _ => withFs s (s.fs.write path id)

def makeDir (parents : Bool) (s : State) (path : String) : Except IoError State :=
  if parents then
    match FileSystem.ensureDir path s.fs with
    | (.ok _, fs) => .ok { s with fs }
    | (.error e, _) => .error e
  else withFs s (s.fs.mkdir path)

/-- Remove what a path leads to, without following a link at its end. -/
def remove (recursive force : Bool) (s : State) (path : String) : Except IoError State :=
  let name := (Path.segments (FileSystem.withoutFinalSlashes path)).getLastD ""
  match s.fs.walk false path with
  | .ok (.found place node) =>
    if node.isDirectory && !recursive then .error .isADirectory
    else if name = "." ∨ name = ".." then .error .permissionDenied
    else .ok { s with fs.nodes := s.fs.nodes.filter fun p _ => !place.isPrefixOf p }
  | .ok (.vacant ..) => if force then .ok s else .error .notFound
  | .error e => if force && e = .notFound then .ok s else .error e

def removeDir (s : State) (path : String) : Except IoError State :=
  match s.fs.walk false path with
  | .ok (.found place .directory) =>
    if (s.fs.below place).isEmpty then .ok { s with fs.nodes := s.fs.nodes.erase place }
    else .error (.other "Directory not empty (os error 39)")
  | .ok (.found ..) => .error .notADirectory
  | .ok (.vacant ..) => .error .notFound
  | .error e => .error e

/-- The path that a file gets when it is put at a target. -/
def landing (s : State) (source target : String) : String :=
  if s.fs.isDirectory target then Path.join target ((Path.segments source).getLastD source)
  else target

/-- A file system in which a place holds what another one holds, with all below. -/
def withTree (fs : FileSystem) (source target : Place) (node : Node) : FileSystem :=
  (fs.below source).foldl (fun fs e => fs.set (target ++ e.1.drop source.length) e.2)
    (fs.set target node)

def copy (recursive : Bool) (source target : String) (s : State) : Except IoError State := do
  let (place, node) ← s.fs.stat source
  let target := landing s source target
  match node, s.fs.walk true target with
  | .directory, .ok (.vacant parent name _) =>
    if recursive then return { s with fs := withTree s.fs place (parent ++ [name]) node }
    else throw .isADirectory
  | .directory, _ => throw .isADirectory
  | .file .., .ok (.vacant parent name false) =>
    return { s with fs := s.fs.set (parent ++ [name]) node }
  | _, _ =>
    let content ← s.fs.read source
    withFs s (s.fs.write target fun _ => content)

/-- Give what a path leads to another path. -/
def rename (source target : String) (s : State) : Except IoError State := do
  match ← s.fs.walk false source, ← s.fs.walk false (landing s source target) with
  | .found old node, .vacant parent name _ =>
    let fs := withTree s.fs old (parent ++ [name]) node
    return { s with fs.nodes := fs.nodes.filter fun p _ => !old.isPrefixOf p }
  | .found old node, .found new other =>
    if old = new then throw (.other "same file")
    else if node.isDirectory || other.isDirectory then throw .exists
    else return { s with fs.nodes := (s.fs.nodes.insert new node).erase old }
  | .vacant .., _ => throw .notFound

/-- Make a link, or give a file a second name. -/
def link (symbolic force : Bool) (target path : String) (s : State) : Except IoError State := do
  let path := landing s target path
  let s ← if force then remove false true s path else .ok s
  if symbolic then withFs s (s.fs.symlink target path)
  else do
    let (_, node) ← s.fs.stat target
    if node.isDirectory then throw .permissionDenied else withFs s (s.fs.create path node)

/-- The names in a directory, or a path itself if there is no directory at it. -/
def list (hidden : Bool) (s : State) (path : String) : Except IoError State := do
  let (_, node) ← s.fs.stat path
  let names := if node.isDirectory then
    (Pattern.namesIn s.fs path).filter fun name => hidden || name.toList.head? != some '.'
    else [path]
  return s.print (String.join (names.map (· ++ "\n")))

def setMode (mode : String) (s : State) (path : String) : Except IoError State :=
  match s.fs.stat path with
  | .ok (place, .file content old) =>
    let new := if mode.toList.all Char.isDigit then
        mode.toList.foldl (fun n c => n * 8 + (c.toNat - '0'.toNat)) 0
      else if mode = "+x" ∨ mode = "a+x" then old ||| 0o111
      else if mode = "-x" ∨ mode = "a-x" then old &&& 0o666
      else old
    .ok { s with fs := s.fs.set place (.file content new) }
  | .ok _ => .ok s
  | .error e => .error e

/-- Put out what is made of files, or of the input if none is named. -/
def filter (s : State) (make : List UInt8 → List UInt8) : List String → Flow × State
  | [] => { s with output := s.output ++ make s.input, input := [] }.ended 0
  | paths =>
    forAll s (fun s path => (s.fs.read path).map fun content =>
      { s with output := s.output ++ make content }) paths

/-- The numbers of lines, words and bytes, or those of them that are asked for. -/
def counts (args : List String) (content : List UInt8) : List UInt8 :=
  let isBlank (b : UInt8) : Bool := b == 32 || (9 ≤ b && b ≤ 13)
  let numbers := [('l', content.count 10),
    ('w', ((content.splitOnP isBlank).filter fun w => !w.isEmpty).length),
    ('c', content.length)]
  let asked := numbers.filter fun n => hasOption args n.1
  let shown := (if asked.isEmpty then numbers else asked).map fun n => toString n.2
  Text.utf8Encode (" ".intercalate shown ++ "\n")

/-- The first lines of a text. -/
def firstLines (n : Nat) (content : List UInt8) : List UInt8 :=
  let lines := content.splitOn 10
  if lines.length ≤ n then content else (lines.take n).flatMap (· ++ [10])

/-- The number of lines that is asked for. -/
def linesWanted : List String → Nat × List String
  | "-n" :: n :: rest => (n.toNat?.getD 0, rest)
  | arg :: rest =>
    match arg.toList with
    | '-' :: 'n' :: digits => ((String.ofList digits).toNat?.getD 0, rest)
    | '-' :: digits => ((String.ofList digits).toNat?.getD 0, rest)
    | _ => (10, arg :: rest)
  | [] => (10, [])

/-- The last name of a path, without an ending if it has that. -/
def lastName (path ending : String) : String :=
  let name := ((Path.segments (FileSystem.withoutFinalSlashes path)).getLastD path).toList
  let stop := ending.toList
  if stop.isSuffixOf name && stop != name then String.ofList (name.take (name.length - stop.length))
  else String.ofList name

/-- A path without its last name. -/
def parentOf (path : String) : String :=
  match (FileSystem.withoutFinalSlashes path).toList.reverse.dropWhile (· != '/') with
  | [] => "."
  | slashes =>
    match slashes.dropWhile (· == '/') with
    | [] => "/"
    | kept => String.ofList kept.reverse

/-! ## Programs -/

/-- Run a program of the machine, if it has one of this name that needs no other
    command. -/
def program (name : String) (args : List String) (s : State) : Option (Flow × State) :=
  match name with
  | "true" => some (s.ended 0)
  | "false" => some (s.ended 1)
  | "sleep" => some (s.ended 0)
  | "test" => some (test s args)
  | "[" => some (bracket s args)
  | "echo" => some (echo s args)
  | "printf" => some (printf s args)
  | "cat" => some (filter s id (operands args))
  | "wc" => some (filter s (counts args) (operands args))
  | "head" =>
    let (n, paths) := linesWanted args
    some (filter s (firstLines n) paths)
  | "ls" =>
    let paths := operands args
    let (flow, s) := forAll s (list (hasOption args 'a' || hasOption args 'A'))
      (if paths.isEmpty then ["."] else paths)
    some (flow, { s with status := 2 * s.status })
  | "basename" =>
    match operands args with
    | [path] => some ((s.print (lastName path "" ++ "\n")).ended 0)
    | [path, ending] => some ((s.print (lastName path ending ++ "\n")).ended 0)
    | _ => some (s.ended 1)
  | "dirname" =>
    some (forSome s (fun s path => .ok (s.print (parentOf path ++ "\n"))) (operands args))
  | "mkfifo" =>
    let make (s : State) (path : String) := withFs s (s.fs.mkfifo path FileSystem.newFileMode)
    some (forSome s make (operands args))
  | "pwd" => some ((s.print (s.fs.cwd.path ++ "\n")).ended 0)
  | "touch" => some (forSome s touch (operands args))
  | "mkdir" => some (forSome s (makeDir (hasOption args 'p')) (operands args))
  | "rmdir" => some (forSome s removeDir (operands args))
  | "rm" =>
    let force := hasOption args 'f'
    some ((if force then forAll else forSome) s
      (remove (hasOption args 'r' || hasOption args 'R') force) (operands args))
  | "chmod" =>
    match args with
    | mode :: paths => some (forAll s (setMode mode) paths)
    | [] => some (s.ended 1)
  | "cp" =>
    let recursive := hasOption args 'r' || hasOption args 'R' || hasOption args 'a'
    some (onPair s (copy recursive) (operands args))
  | "mv" => some (onPair s rename (operands args))
  | "ln" => some (onPair s (link (hasOption args 's') (hasOption args 'f')) (operands args))
  | _ => none

/-- Programs of the machine. -/
def programs : List String :=
  ["true", "false", "sleep", "test", "[", "echo", "printf", "cat", "pwd", "touch", "mkdir", "rmdir",
    "rm", "chmod", "cp", "mv", "ln", "mkfifo", "ls", "wc", "head", "basename", "dirname", "sh",
    "env"]

end Utility

end BuildServer.Shell
