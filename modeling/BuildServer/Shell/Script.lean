-- SUMMARY: Shell scripts: their structure, and reading it from tokens.
import BuildServer.Shell.Token

/-!
# Scripts

A script is built from simple commands by sequences, connectives, conditions,
selections and loops. Keywords are words without quotes where a command may
begin. Commands are read line by line, so that what is wrong in one line does
not keep those before it from running.
-/

namespace BuildServer.Shell

structure Redirect where
  fd : Nat
  kind : RedirectKind
  target : Word
  deriving DecidableEq, Repr

inductive Script where
  /-- Do nothing, and succeed. -/
  | skip
  | simple (assignments : List (String × Word)) (words : List Word) (redirects : List Redirect)
  | seq (first second : Script)
  | both (first second : Script)
  | either (first second : Script)
  | negate (body : Script)
  | pipe (source sink : Script)
  | cond (test yes no : Script)
  /-- For each field of the words, or of all arguments. -/
  | each (name : String) (words : List Word) (body : Script)
  /-- As long as the test succeeds, or as long as it fails. Going round no more
      leaves the exit status that was there before the test. -/
  | loop (untilTrue : Bool) (test body : Script)
  /-- By the first branch that the word matches. -/
  | select (subject : Word) (branches : Script)
  /-- A branch of a selection, for words that one of the patterns accepts. -/
  | branch (patterns : List Word) (body others : Script)
  /-- Let a name stand for a script. -/
  | define (name : String) (body : Script)
  /-- On a copy of the shell. -/
  | apart (body : Script)
  /-- On a copy of the shell that goes on by itself. -/
  | background (body : Script)
  | redirected (body : Script) (redirects : List Redirect)
  /-- What makes no sense. -/
  | broken
  deriving Repr

namespace Script

/-! ## Pieces of simple commands -/

/-- The name and value of a word of the form `name=value`. -/
def assignment? : Word → Option (String × Word)
  | .text chars false :: rest =>
    let name := chars.takeWhile (· != '=')
    match chars.dropWhile (· != '=') with
    | '=' :: value =>
      if name.head?.any Token.isNameStart && name.all Token.isNameChar then
        some (String.ofList name, if value.isEmpty then rest else .text value false :: rest)
      else none
    | _ => none
  | _ => none

/-- The descriptor that a redirection applies to when none is given. -/
def usualDescriptor : RedirectKind → Nat
  | .input | .document => 0
  | _ => 1

/-- Assignments, words and redirections at the start of a list of tokens. -/
structure Parts where
  assignments : List (String × Word)
  words : List Word
  redirects : List Redirect

def Parts.none : Parts := ⟨[], [], []⟩

def parts? : Parts → List Token → Option (Parts × List Token)
  | p, .word w :: rest =>
    match assignment? w, p.words with
    | some a, [] => parts? { p with assignments := p.assignments ++ [a] } rest
    | _, _ => parts? { p with words := p.words ++ [w] } rest
  | p, .redirect fd kind :: .word w :: rest =>
    parts? { p with redirects := p.redirects ++ [⟨fd.getD (usualDescriptor kind), kind, w⟩] } rest
  | _, .redirect .. :: _ => .none
  | p, rest => some (p, rest)

/-- The redirections after a compound command. -/
def withRedirects? (body : Script) (tokens : List Token) : Option (Script × List Token) := do
  let (p, rest) ← parts? .none tokens
  if !p.words.isEmpty || !p.assignments.isEmpty then .none
  else if p.redirects.isEmpty then some (body, rest)
  else some (.redirected body p.redirects, rest)

/-! ## Keywords -/

/-- The keyword that a token is, where a command may begin. -/
def keyword? : Token → Option String
  | .word w => w.plain?
  | _ => none

/-- Words that end a list of commands. -/
def closers : List String := ["then", "elif", "else", "fi", "do", "done", "esac", "\x7d"]

def ends : List Token → Bool
  | [] => true
  | .exit :: _ => true
  | .nextBranch :: _ => true
  | token :: _ => (keyword? token).any closers.contains

def skipNewlines (tokens : List Token) : List Token := tokens.dropWhile (· == .newline)

/-- Take a keyword. -/
def take? (name : String) : List Token → Option (List Token)
  | token :: rest => if keyword? token = some name then some rest else none
  | [] => none

/-- The words of a loop up to the end of its line, or all arguments. -/
def loopWords? (tokens : List Token) : Option (List Word × List Token) :=
  match take? "in" (skipNewlines tokens) with
  | none => some ([[.param "@" true]], tokens)
  | some rest => do
    let (p, rest) ← parts? .none rest
    if p.redirects.isEmpty then some (p.words, rest) else none

/-- The patterns of a branch up to the parenthesis after them. -/
def patterns? : List Token → Option (List Word × List Token)
  | .word w :: .exit :: rest => some ([w], rest)
  | .word w :: .pipe :: rest => do
    let (ws, rest) ← patterns? rest
    return (w :: ws, rest)
  | _ => none

/-- The name that is given to a script where these tokens begin. -/
def definition? : List Token → Option (String × List Token)
  | .word w :: .enter :: .exit :: rest => do return (← w.plain?, skipNewlines rest)
  | _ => none

/-- Skip a semicolon and newlines. -/
def skipEnd : List Token → List Token
  | .semicolon :: rest => skipNewlines rest
  | rest => skipNewlines rest

/-! ## Reading -/

/-- What is read next. -/
inductive Goal where
  /-- Commands up to the end of a line. -/
  | line
  /-- Commands up to a word that ends them. -/
  | commands
  /-- The same, with at least one command. -/
  | block
  | connected
  /-- What goes on after a first command of a connected list. -/
  | connectedAfter (first : Script)
  | piped
  | single
  /-- What goes on after the test of a condition. -/
  | conditions (test : Script)
  /-- What goes on after the subject of a selection. -/
  | branches

/-- One script after the other, unless the other is empty. -/
def join (first : Script) : Script → Script
  | .skip => first
  | second => .seq first second

/-- Read from tokens. The number bounds the depth of the reading. -/
def read? : Nat → Goal → List Token → Option (Script × List Token)
  | 0, _, _ => none
  | n + 1, .line, tokens =>
    if tokens.isEmpty || tokens.head? == some .newline then some (.skip, tokens)
    else do
      let (first, rest) ← read? n .connected tokens
      match rest with
      | .semicolon :: rest =>
        let (second, rest) ← read? n .line rest
        return (join first second, rest)
      | .background :: rest =>
        let (second, rest) ← read? n .line rest
        return (join (.background first) second, rest)
      | rest => return (first, rest)
  | n + 1, .commands, tokens =>
    let tokens := skipNewlines tokens
    if ends tokens then some (.skip, tokens)
    else do
      let (first, rest) ← read? n .connected tokens
      match rest with
      | .semicolon :: rest | .newline :: rest =>
        let (second, rest) ← read? n .commands rest
        return (join first second, rest)
      | .background :: rest =>
        let (second, rest) ← read? n .commands rest
        return (join (.background first) second, rest)
      | rest => if ends rest then some (first, rest) else none
  | n + 1, .block, tokens =>
    if ends (skipNewlines tokens) then none else read? n .commands tokens
  | n + 1, .connected, tokens => do
    let (first, rest) ← read? n .piped tokens
    read? n (.connectedAfter first) rest
  | n + 1, .connectedAfter first, tokens =>
    match tokens with
    | .both :: rest => do
      let (second, rest) ← read? n .piped (skipNewlines rest)
      read? n (.connectedAfter (.both first second)) rest
    | .either :: rest => do
      let (second, rest) ← read? n .piped (skipNewlines rest)
      read? n (.connectedAfter (.either first second)) rest
    | rest => some (first, rest)
  | n + 1, .piped, tokens =>
    match take? "!" tokens with
    | some rest => do
      let (body, rest) ← read? n .piped rest
      return (.negate body, rest)
    | none => do
      let (first, rest) ← read? n .single tokens
      match rest with
      | .pipe :: rest =>
        let (second, rest) ← read? n .piped (skipNewlines rest)
        return (.pipe first second, rest)
      | rest => return (first, rest)
  | n + 1, .conditions test, tokens => do
    let (yes, rest) ← read? n .block (← take? "then" tokens)
    match rest.head?.bind keyword? with
    | some "elif" =>
      let (test', rest) ← read? n .block rest.tail
      let (no, rest) ← read? n (.conditions test') rest
      return (.cond test yes no, rest)
    | some "else" =>
      let (no, rest) ← read? n .block rest.tail
      return (.cond test yes no, ← take? "fi" rest)
    | _ => return (.cond test yes .skip, ← take? "fi" rest)
  | n + 1, .branches, tokens =>
    let tokens := skipNewlines tokens
    match take? "esac" tokens with
    | some rest => some (.skip, rest)
    | none => do
      let (patterns, rest) ←
        patterns? (if tokens.head? == some .enter then tokens.tail else tokens)
      let (body, rest) ← read? n .commands rest
      let (others, rest) ←
        read? n .branches (if rest.head? == some .nextBranch then rest.tail else rest)
      return (.branch patterns body others, rest)
  | n + 1, .single, tokens =>
    match definition? tokens, tokens with
    | some (name, rest), _ => do
      let (body, rest) ← read? n .single rest
      return (.define name body, rest)
    | none, .enter :: rest => do
      let (body, rest) ← read? n .block rest
      match rest with
      | .exit :: rest => withRedirects? (.apart body) rest
      | _ => none
    | none, token :: rest =>
      match keyword? token with
      | some "\x7b" => do
        let (body, rest) ← read? n .block rest
        withRedirects? body (← take? "\x7d" rest)
      | some "if" => do
        let (test, rest) ← read? n .block rest
        let (body, rest) ← read? n (.conditions test) rest
        withRedirects? body rest
      | some "for" => do
        let name ← rest.head?.bind keyword?
        let (words, rest) ← loopWords? rest.tail
        let (body, rest) ← read? n .block (← take? "do" (skipEnd rest))
        withRedirects? (.each name words body) (← take? "done" rest)
      | some "while" => do
        let (test, rest) ← read? n .block rest
        let (body, rest) ← read? n .block (← take? "do" rest)
        withRedirects? (.seq .skip (.loop false test body)) (← take? "done" rest)
      | some "until" => do
        let (test, rest) ← read? n .block rest
        let (body, rest) ← read? n .block (← take? "do" rest)
        withRedirects? (.seq .skip (.loop true test body)) (← take? "done" rest)
      | some "case" =>
        match rest with
        | .word subject :: rest => do
          let (branches, rest) ← read? n .branches (← take? "in" (skipNewlines rest))
          withRedirects? (.select subject branches) rest
        | _ => none
      | keyword => do
        let (p, rest) ← parts? .none (token :: rest)
        if keyword.any closers.contains
          || p.words.isEmpty && p.assignments.isEmpty && p.redirects.isEmpty then none
        else return (.simple p.assignments p.words p.redirects, rest)
    | none, [] => none

/-- Read line by line, up to the first line that makes no sense. The number bounds
    the lines. -/
def lines : Nat → List Token → Script
  | 0, _ => .broken
  | n + 1, tokens =>
    let tokens := skipNewlines tokens
    if tokens.isEmpty then .skip
    else match read? (4 * tokens.length + 8) .line tokens with
      | some (first, []) => first
      | some (first, .newline :: rest) => join first (lines n rest)
      | _ => .broken

/-- The script that a text is. -/
def ofText (text : String) : Script :=
  let tokens := Token.ofText text
  lines (tokens.length + 1) tokens

end Script

end BuildServer.Shell
