-- SUMMARY: The arguments of the command line program.

/-!
# Arguments

An argument is an option, the separator `--`, or plain text. Options come
before or after the name of the action; those after it win. A value may stand
in the same argument as its option or in the next one, where it must not look
like an option. No option may be given twice on the same side of the action,
and every side has room for so many plain arguments only. Reading stops at the
first argument that is wrong or that asks for help.
-/

namespace BuildServer.CommandLine

/-! ## Single arguments -/

inductive Flag where
  | config
  | logFormat
  | fifo
  | version
  | help
  deriving DecidableEq, Repr

namespace Flag

def ofLong? : String → Option Flag
  | "config" => some .config
  | "log-format" => some .logFormat
  | "fifo" => some .fifo
  | "version" => some .version
  | "help" => some .help
  | _ => none

def ofShort? : Char → Option Flag
  | 'c' => some .config
  | 'V' => some .version
  | 'h' => some .help
  | _ => none

def takesValue : Flag → Bool
  | .config | .logFormat | .fifo => true
  | .version | .help => false

end Flag

inductive Token where
  /-- A known option, with the value in the same argument. -/
  | flag (f : Flag) (attached : Option String)
  /-- Looks like an option, but is none. -/
  | unknown
  | separator
  | plain (text : String)
  deriving DecidableEq, Repr

/-- Read `name` or `name=value`. -/
def Token.long (text : List Char) : Token :=
  let name := text.takeWhile (· != '=')
  let attached := match text.dropWhile (· != '=') with
    | '=' :: value => some (String.ofList value)
    | _ => none
  match Flag.ofLong? (String.ofList name) with
  | some f => .flag f attached
  | none => .unknown

def Token.of (arg : String) : Token :=
  match arg.toList with
  | ['-'] => .plain arg
  | ['-', '-'] => .separator
  | '-' :: '-' :: text => .long text
  | '-' :: c :: text =>
    match Flag.ofShort? c with
    | none => .unknown
    | some f =>
      match f.takesValue, text with
      | true, '=' :: value => .flag f (some (String.ofList value))
      | true, c :: value => .flag f (some (String.ofList (c :: value)))
      | _, _ => .flag f none
  | _ => .plain arg

/-! ## Options -/

inductive LogFormat where
  | text
  | json
  deriving DecidableEq, Repr

inductive UsageError where
  | unknownOption (arg : String)
  | unexpectedValue (arg : String)
  | missingValue (arg : String)
  | invalidValue (arg : String)
  | repeated (arg : String)
  | unknownAction (name : String)
  | unexpectedArgument (arg : String)
  | missingArguments
  deriving DecidableEq, Repr

def UsageError.message : UsageError → String
  | .unknownOption arg => s!"unexpected argument '{arg}' found"
  | .unexpectedValue arg => s!"unexpected value in '{arg}'"
  | .missingValue arg => s!"a value is required for '{arg}' but none was supplied"
  | .invalidValue arg => s!"invalid value in '{arg}'"
  | .repeated arg => s!"the argument '{arg}' cannot be used multiple times"
  | .unknownAction name => s!"unrecognized subcommand '{name}'"
  | .unexpectedArgument arg => s!"unexpected argument '{arg}' found"
  | .missingArguments => "the following required arguments were not provided"

/-- Why reading the arguments stops before their end. -/
inductive Stop where
  | usage (e : UsageError)
  | version
  | help
  deriving DecidableEq, Repr

/-- The options and plain arguments on one side of the action. -/
structure Options where
  config : Option String
  logFormat : Option LogFormat
  fifo : Option String
  plain : List String
  deriving DecidableEq, Repr

namespace Options

def none : Options := ⟨.none, .none, .none, []⟩

/-- A path must not be empty. -/
def path (arg value : String) : Except Stop String :=
  if value.isEmpty then .error (.usage (.invalidValue arg)) else .ok value

def logFormatOf (arg : String) : String → Except Stop LogFormat
  | "text" => .ok .text
  | "json" => .ok .json
  | _ => .error (.usage (.invalidValue arg))

/-- Put a value where there is none yet. -/
def once {α : Type} (arg : String) (before : Option α) (value : Except Stop α) :
    Except Stop (Option α) :=
  match before with
  | some _ => .error (.usage (.repeated arg))
  | .none => value.map some

/-- Record the value of an option. -/
def set (o : Options) (arg : String) (f : Flag) (value : String) : Except Stop Options :=
  match f with
  | .config => (once arg o.config (path arg value)).map fun v => { o with config := v }
  | .logFormat =>
    (once arg o.logFormat (logFormatOf arg value)).map fun v => { o with logFormat := v }
  | .fifo => (once arg o.fifo (path arg value)).map fun v => { o with fifo := v }
  | .version => .ok o
  | .help => .ok o

end Options

/-- What may be given on one side of the action. -/
structure Side where
  allowed : List Flag
  /-- How many plain arguments there may be. Without a number, the first of them
      ends the reading. -/
  room : Option Nat
  deriving DecidableEq, Repr

/-- Take all that comes after the separator as plain arguments. -/
def Side.readPlain (side : Side) : Options → List String → Except Stop Options
  | o, [] => .ok o
  | o, arg :: rest =>
    if o.plain.length < side.room.getD 0 then
      side.readPlain { o with plain := o.plain ++ [arg] } rest
    else .error (.usage (.unexpectedArgument arg))

/-- Read the arguments of one side. Gives its options and, where plain arguments
    end the reading, the first of them with everything after it. -/
def Side.read (side : Side) : Options → List String → Except Stop (Options × List String)
  | o, [] => .ok (o, [])
  | o, arg :: rest =>
    match Token.of arg with
    | .unknown => .error (.usage (.unknownOption arg))
    | .plain text =>
      match side.room with
      | none => .ok (o, arg :: rest)
      | some room =>
        if o.plain.length < room then side.read { o with plain := o.plain ++ [text] } rest
        else .error (.usage (.unexpectedArgument arg))
    | .separator => (side.readPlain o rest).map (·, [])
    | .flag f attached =>
      if !side.allowed.contains f then .error (.usage (.unknownOption arg))
      else match f, attached with
        | .version, none => .error .version
        | .help, none => .error .help
        | .version, some _ => .error (.usage (.unexpectedValue arg))
        | .help, some _ => .error (.usage (.unexpectedValue arg))
        | f, some value =>
          match o.set arg f value with
          | .ok o => side.read o rest
          | .error e => .error e
        | f, none =>
          match rest with
          | [] => .error (.usage (.missingValue arg))
          | value :: rest =>
            match Token.of value with
            | .plain _ =>
              match o.set arg f value with
              | .ok o => side.read o rest
              | .error e => .error e
            | _ => .error (.usage (.missingValue arg))

/-! ## Requests -/

/-- What the program is asked to do. -/
inductive Action where
  | run
  | stop (fifo : Option String)
  | restart (fifo : Option String)
  | build (fifo : Option String) (repo profile branch revision : String)
  deriving DecidableEq, Repr

structure Request where
  config : String
  logFormat : LogFormat
  action : Action
  deriving DecidableEq, Repr

namespace Request

def defaultConfig : String := "etc/build-bot/bot.conf"

/-- Options before the action. -/
def outer : Side := ⟨[.config, .logFormat, .version, .help], none⟩

/-- Options of the server itself. -/
def serverSide : Side := ⟨[.config, .logFormat, .help], some 0⟩

/-- Options of the actions that reach a running server, with so many plain
    arguments. -/
def clientSide (room : Nat) : Side := ⟨[.config, .logFormat, .fifo, .help], some room⟩

/-- Names that help can be asked about. -/
def topics : List String := ["run", "stop", "restart", "build", "help"]

/-- What the arguments after a request for help come to. -/
def helpOn : List String → Stop
  | [] => .help
  | [name] => if topics.contains name then .help else .usage (.unknownAction name)
  | name :: arg :: _ => .usage (.unknownAction (if topics.contains name then arg else name))

/-- The request of two sides of options and an action. -/
def of (before after : Options) (action : Action) : Request where
  config := (after.config <|> before.config).getD defaultConfig
  logFormat := (after.logFormat <|> before.logFormat).getD .text
  action := action

/-- The request that the arguments after the action's name complete. -/
def ofAction (before : Options) (name : String) (args : List String) : Except Stop Request := do
  match name with
  | "run" =>
    let (after, _) ← serverSide.read .none args
    return of before after .run
  | "stop" =>
    let (after, _) ← (clientSide 0).read .none args
    return of before after (.stop after.fifo)
  | "restart" =>
    let (after, _) ← (clientSide 0).read .none args
    return of before after (.restart after.fifo)
  | "build" =>
    let (after, _) ← (clientSide 4).read .none args
    match after.plain with
    | [repo, profile, branch, revision] =>
      return of before after (.build after.fifo repo profile branch revision)
    | _ => throw (.usage .missingArguments)
  | "help" => throw (helpOn args)
  | _ => throw (.usage (.unknownAction name))

/-- The request that the arguments make. Without an action, the server is run. -/
def parse (args : List String) : Except Stop Request := do
  let (before, rest) ← outer.read .none args
  match rest with
  | [] => return of before .none .run
  | name :: args => ofAction before name args

end Request

end BuildServer.CommandLine
