-- SUMMARY: Expanding the words of a script, which may run commands.
import BuildServer.Shell.Builtin
import BuildServer.Shell.Calculation

/-!
# Expansion

Before a command runs, the parameters, commands and calculations in its words
are replaced by what they come to. That may run scripts, for which a `Run` is
given, and may change the shell. A word that makes no sense leaves a fault in the
shell, which ends it before the command runs.
-/

namespace BuildServer.Shell

/-- A way to run scripts. The flag marks a script whose failure is expected, so
    that it does not end a strict shell. -/
abbrev Run := Bool → Script → State → Flow × State

/-! ## Flow -/

namespace Flow

/-- Go on with `next` unless the shell has been left. -/
def bind (r : Flow × State) (next : State → Flow × State) : Flow × State :=
  match r with
  | (.more, s) => next s
  | r => r

/-- The flow after commands that ran apart: leaving their copy of the shell does
    not leave the shell. -/
def outside : Flow → Flow
  | .killed signal => .killed signal
  | _ => .more

/-- The flow after a function, or after a script that was read from a file. -/
def returned : Flow → Flow
  | .back => .more
  | flow => flow

/-- Leave the shell if a word could not be expanded. -/
def sound (s : State) (next : State → Flow × State) : Flow × State :=
  if s.fault then (.exit, { s with status := 2, fault := false }) else next s

/-- The state in which a loop goes on after one round, or else how it is left. -/
def round : Flow × State → Except (Flow × State) State
  | (.more, s) | (.again 0, s) => .ok s
  | (.leave 0, s) => .error (.more, s)
  | (.again (n + 1), s) => .error (.again n, s)
  | (.leave (n + 1), s) => .error (.leave n, s)
  | r => .error r

/-- Leave a strict shell after a failure that was not expected. -/
def strictly (tested : Bool) (r : Flow × State) : Flow × State :=
  bind r fun s => if s.strict && !tested && s.status != 0 then (.exit, s) else (.more, s)

end Flow

/-! ## Words -/

/-- The output of commands without the newlines at its end. -/
def shownOutput (bytes : List UInt8) : String :=
  Text.utf8DecodeLossy ((bytes.reverse.dropWhile (· == 10)).reverse)

/-- The argument of an edit as a word. Outside quotes its text is split as well. -/
def Edit.argument (quoted : Bool) (arg : List Char) : Word :=
  if quoted then (Token.quotedWord? arg).getD []
  else ((Token.wholeWord? arg).getD []).map fun
    | .text chars false => .value (String.ofList chars) false
    | piece => piece

/-- Make what an edit says of a parameter, with `settle` for what is in its
    argument. -/
def Edit.settle (settle : Word → State → Word × State) (name : String) (arg : List Char)
    (quoted : Bool) (s : State) (edit : Edit) : Word × State :=
  let value := wholeValue s.values name
  let given (evenEmpty : Bool) : Bool := (s.values? name).isSome && !(evenEmpty && value.isEmpty)
  let other (s : State) : Word × State := settle (Edit.argument quoted arg) s
  let pattern : Pattern × State :=
    let (w, s) := settle ((Token.wholeWord? arg).getD []) s
    (.ofLetters (w.letters s.values), s)
  let without (drop : Pattern → List Char → List Char) : Word × State :=
    ([.value (String.ofList (drop pattern.1 value.toList)) quoted], pattern.2)
  match edit with
  | .length => ([.value (toString value.length) quoted], s)
  | .fallback evenEmpty => if given evenEmpty then ([.param name quoted], s) else other s
  | .assign evenEmpty =>
    if given evenEmpty then ([.param name quoted], s)
    else
      let (w, s) := other s
      let s := s.setVar name (w.joined s.values)
      ([.param name quoted], s)
  | .demand evenEmpty =>
    if given evenEmpty then ([.param name quoted], s) else ([], { s with fault := true })
  | .replace evenEmpty => if given evenEmpty then other s else ([], s)
  | .dropStart longest => without (·.dropStart longest)
  | .dropEnd longest => without (·.dropEnd longest)
  | .invalid => ([], { s with fault := true })

/-- Replace a piece that is not text by what it comes to, with `settle` for the
    words in it. -/
def Piece.settle (run : Run) (settle : Word → State → Word × State) (s : State) :
    Piece → Word × State
  | .output source quoted =>
    let (_, inner) := run false (Script.ofText source) s.apart
    ([.value (shownOutput inner.output) quoted], { s.after inner with output := s.output })
  | .calculation source quoted =>
    let (w, s) := settle ((Token.quotedWord? source).getD []) s
    match Calculation.value? s.var (w.joined s.values) with
    | some (result, changes) =>
      ([.value (toString result) quoted],
        changes.reverse.foldl (fun s (name, n) => s.setVar name (toString n)) s)
    | none => ([], { s with fault := true })
  | .edited name edit arg quoted => edit.settle settle name arg quoted s
  | .param name quoted =>
    let isList := name = "@" ∨ name = "*"
    if s.declared ∧ ¬isList ∧ (s.values? name).isNone then ([], { s with fault := true })
    else ([.param name quoted], s)
  | piece => ([piece], s)

/-- Replace all in a word that is not text. The number bounds how deep such
    things are inside each other. -/
def Word.settle (run : Run) : Nat → Word → State → Word × State
  | 0, w, s => (w, s)
  | n + 1, w, s =>
    w.foldl (fun (done, s) piece =>
      let (pieces, s) := piece.settle run (Word.settle run n) s
      (done ++ pieces, s)) ([], s)

/-- How deep expansions may be inside each other. -/
def nestingLimit : Nat := 64

/-- The characters of a word where nothing is split. -/
def Word.whole (run : Run) (w : Word) (s : State) : List Letter × State :=
  let (w, s) := w.settle run nestingLimit s
  (w.letters s.values, s)

/-- The text of a word where nothing is split. -/
def Word.eval (run : Run) (w : Word) (s : State) : String × State :=
  let (letters, s) := w.whole run s
  (Letter.text letters, s)

/-- The fields of words. -/
def evalFields (run : Run) : List Word → State → List String × State
  | [], s => ([], s)
  | w :: ws, s =>
    let (w, s) := w.settle run nestingLimit s
    let fields := (w.fields s.values).flatMap (Pattern.expandPath s.fs)
    let (rest, s) := evalFields run ws s
    (fields ++ rest, s)

/-- Set variables, for programs as well if so wanted. -/
def assign (run : Run) (exported : Bool) : List (String × Word) → State → State
  | [], s => s
  | (name, w) :: rest, s =>
    let (value, s) := w.eval run s
    let s := s.setVar name value
    assign run exported rest (if exported then s.exportVar name else s)

end BuildServer.Shell
