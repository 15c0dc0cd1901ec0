-- SUMMARY: Cutting a shell script into words and operators.
import BuildServer.Shell.Word

/-!
# Tokens

Scripts are cut into words and operators. Quotes and backslashes are resolved
here; parameters, commands and calculations in a word are recognized but not
expanded. A document in the script is taken out of the lines after its operator
and becomes the word of that operator. Every step uses up characters, whose
number bounds the steps.
-/

namespace BuildServer.Shell

inductive RedirectKind where
  | input
  | output
  | append
  /-- To where another descriptor goes. -/
  | duplicate
  /-- From a text in the script. -/
  | document
  deriving DecidableEq, Repr

inductive Token where
  | word (w : Word)
  | newline
  | semicolon
  /-- Between the branches of a selection. -/
  | nextBranch
  | background
  | pipe
  | both
  | either
  | enter
  | exit
  /-- With the descriptor if it is given. -/
  | redirect (fd : Option Nat) (kind : RedirectKind)
  /-- A text that is no token, like a quote that is left open. -/
  | broken
  deriving DecidableEq, Repr

namespace Token

/-! ## Characters -/

/-- Characters that end an unquoted word. -/
def endsWord (c : Char) : Bool :=
  isFieldBlank c || c == ';' || c == '&' || c == '|' || c == '(' || c == ')' || c == '<' || c == '>'

def isNameStart (c : Char) : Bool := c.isAlpha || c == '_'

def isNameChar (c : Char) : Bool := c.isAlphanum || c == '_'

/-- Parameters with a name of one special character. -/
def isSpecial (c : Char) : Bool :=
  c.isDigit || c == '@' || c == '*' || c == '#' || c == '?' || c == '$' || c == '!' || c == '-'

/-- Characters that a backslash in double quotes stands for. -/
def isEscapable (c : Char) : Bool := c == '$' || c == '\u0060' || c == '"' || c == '\\'

/-- The text up to a character, and what comes after that character. -/
def upTo? (stop : Char) (cs : List Char) : Option (List Char × List Char) :=
  match cs.dropWhile (· != stop) with
  | [] => none
  | _ :: rest => some (cs.takeWhile (· != stop), rest)

/-- The command up to a backquote that no backslash stands before, and what comes
    after it. -/
def upToBackquote? : Nat → List Char → Option (List Char × List Char)
  | 0, _ => none
  | _ + 1, [] => none
  | _ + 1, '\u0060' :: cs => some ([], cs)
  | n + 1, '\\' :: c :: cs => do
    let (script, rest) ← upToBackquote? n cs
    return (if c = '\u0060' ∨ c = '$' ∨ c = '\\' then c :: script else '\\' :: c :: script, rest)
  | n + 1, c :: cs => do
    let (script, rest) ← upToBackquote? n cs
    return (c :: script, rest)

/-- Where a search for a closing bracket is. -/
structure Search where
  depth : Nat
  /-- The quote that is open. -/
  quote : Option Char
  /-- Whether a backslash has just been read. -/
  escaped : Bool
  /-- What has been read, in reverse. -/
  taken : List Char

/-- The text up to the bracket that closes as many as are open, and what comes
    after it. Brackets in quotes do not count. -/
def upToClosing? (opening closing : Char) : Search → List Char → Option (List Char × List Char)
  | _, [] => none
  | s, c :: cs =>
    let go (s' : Search) := upToClosing? opening closing { s' with taken := c :: s.taken } cs
    if s.escaped then go { s with escaped := false }
    else if c = '\\' ∧ s.quote ≠ some '\'' then go { s with escaped := true }
    else match s.quote with
      | some q => go (if c = q then { s with quote := none } else s)
      | none =>
        if c = '\'' ∨ c = '"' then go { s with quote := some c }
        else if c = opening then go { s with depth := s.depth + 1 }
        else if c = closing then
          match s.depth with
          | 0 => some (s.taken.reverse, cs)
          | depth + 1 => go { s with depth }
        else go s

/-! ## Parameters -/

/-- The edit after the name of a parameter, and its argument. -/
def edit : List Char → Edit × List Char
  | ':' :: '-' :: cs => (.fallback true, cs)
  | '-' :: cs => (.fallback false, cs)
  | ':' :: '=' :: cs => (.assign true, cs)
  | '=' :: cs => (.assign false, cs)
  | ':' :: '?' :: cs => (.demand true, cs)
  | '?' :: cs => (.demand false, cs)
  | ':' :: '+' :: cs => (.replace true, cs)
  | '+' :: cs => (.replace false, cs)
  | '#' :: '#' :: cs => (.dropStart true, cs)
  | '#' :: cs => (.dropStart false, cs)
  | '%' :: '%' :: cs => (.dropEnd true, cs)
  | '%' :: cs => (.dropEnd false, cs)
  | cs => (.invalid, cs)

/-- The name of a parameter at the start of a text, and what comes after it. -/
def paramName (cs : List Char) : String × List Char :=
  match cs with
  | [] => ("", [])
  | c :: rest =>
    if isNameStart c then (String.ofList (cs.takeWhile isNameChar), cs.dropWhile isNameChar)
    else if c.isDigit then (String.ofList (cs.takeWhile Char.isDigit), cs.dropWhile Char.isDigit)
    else if isSpecial c then (String.ofList [c], rest)
    else ("", cs)

/-- The parameter that stands between braces. -/
def inBraces (quoted : Bool) (cs : List Char) : Piece :=
  match cs with
  | '#' :: c :: cs =>
    match paramName (c :: cs) with
    | (name, []) => .edited name .length [] quoted
    | _ => let (e, arg) := edit (c :: cs); .edited "#" e arg quoted
  | cs =>
    match paramName cs with
    | ("", arg) => .edited "" .invalid arg quoted
    | (name, []) => .param name quoted
    | (name, rest) => let (e, arg) := edit rest; .edited name e arg quoted

/-- The calculation that a text in parentheses holds if it has another pair of
    parentheses around it. -/
def calculation? : List Char → Option (List Char)
  | '(' :: cs =>
    match cs.reverse with
    | ')' :: cs => some cs.reverse
    | _ => none
  | _ => none

/-- The piece after a dollar sign, and what comes after it. -/
def dollar? (quoted : Bool) (cs : List Char) : Option (Piece × List Char) :=
  match cs with
  | '(' :: cs => do
    let (inner, rest) ← upToClosing? '(' ')' ⟨0, none, false, []⟩ cs
    match calculation? inner with
    | some source => return (.calculation source quoted, rest)
    | none => return (.output (String.ofList inner) quoted, rest)
  | '\x7b' :: cs => do
    let (inner, rest) ← upToClosing? '\x7b' '\x7d' ⟨0, none, false, []⟩ cs
    return (inBraces quoted inner, rest)
  | c :: rest =>
    if isSpecial c then some (.param (String.ofList [c]) quoted, rest)
    else if isNameStart c then
      let (name, rest) := paramName cs
      some (.param name quoted, rest)
    else some (.text ['$'] quoted, cs)
  | [] => some (.text ['$'] quoted, [])

/-! ## Words -/

/-- Put a piece of text after the others, which are in reverse. -/
def addText (pieces : Word) (chars : List Char) (quoted : Bool) : Word :=
  match pieces with
  | .text before q :: pieces =>
    if q = quoted then .text (before ++ chars) q :: pieces
    else .text chars quoted :: .text before q :: pieces
  | pieces => .text chars quoted :: pieces

/-- Read a text as in double quotes into the pieces before it, up to the closing
    quote or, where there is none, up to the end. -/
def double? (closing : Option Char) : Nat → Word → List Char → Option (Word × List Char)
  | 0, _, _ => none
  | _ + 1, pieces, [] => if closing.isNone then some (pieces, []) else none
  | n + 1, pieces, c :: cs =>
    if closing = some c then some (pieces, cs)
    else if c = '$' then do
      let (piece, rest) ← dollar? true cs
      double? closing n (piece :: pieces) rest
    else if c = '\u0060' then do
      let (script, rest) ← upToBackquote? (n + 1) cs
      double? closing n (.output (String.ofList script) true :: pieces) rest
    else if c = '\\' then
      match cs with
      | '\n' :: cs => double? closing n pieces cs
      | c :: cs =>
        double? closing n (addText pieces (if isEscapable c then [c] else ['\\', c]) true) cs
      | [] => double? closing n (addText pieces ['\\'] true) []
    else double? closing n (addText pieces [c] true) cs

/-- Read the rest of a word after its pieces so far, which are in reverse. -/
def word? (ends : Char → Bool) : Nat → Word → List Char → Option (Word × List Char)
  | 0, _, _ => none
  | _ + 1, pieces, [] => some (pieces.reverse, [])
  | n + 1, pieces, c :: cs =>
    if ends c then some (pieces.reverse, c :: cs)
    else if c = '\'' then do
      let (text, rest) ← upTo? '\'' cs
      word? ends n (addText pieces text true) rest
    else if c = '"' then do
      let (inner, rest) ← double? (some '"') n [] cs
      word? ends n (if inner.isEmpty then addText pieces [] true else inner ++ pieces) rest
    else if c = '$' then do
      let (piece, rest) ← dollar? false cs
      word? ends n (piece :: pieces) rest
    else if c = '\u0060' then do
      let (script, rest) ← upToBackquote? (n + 1) cs
      word? ends n (.output (String.ofList script) false :: pieces) rest
    else if c = '\\' then
      match cs with
      | '\n' :: cs => word? ends n pieces cs
      | c :: cs => word? ends n (addText pieces [c] true) cs
      | [] => word? ends n (addText pieces ['\\'] true) []
    else word? ends n (addText pieces [c] false) cs

/-- A text read as in double quotes. -/
def quotedWord? (cs : List Char) : Option Word :=
  (double? none (cs.length + 1) [] cs).map fun (pieces, _) => pieces.reverse

/-- A text read as one word whatever is in it. -/
def wholeWord? (cs : List Char) : Option Word :=
  (word? (fun _ => false) (cs.length + 2) [] cs).map (·.1)

/-! ## Operators -/

/-- An operator at the start of a text, and what comes after it. -/
def operator? : List Char → Option (Token × List Char)
  | '\n' :: cs => some (.newline, cs)
  | ';' :: ';' :: cs => some (.nextBranch, cs)
  | ';' :: cs => some (.semicolon, cs)
  | '&' :: '&' :: cs => some (.both, cs)
  | '&' :: cs => some (.background, cs)
  | '|' :: '|' :: cs => some (.either, cs)
  | '|' :: cs => some (.pipe, cs)
  | '(' :: cs => some (.enter, cs)
  | ')' :: cs => some (.exit, cs)
  | '>' :: '>' :: cs => some (.redirect none .append, cs)
  | '>' :: '&' :: cs => some (.redirect none .duplicate, cs)
  | '>' :: '|' :: cs => some (.redirect none .output, cs)
  | '>' :: cs => some (.redirect none .output, cs)
  | '<' :: '<' :: cs => some (.redirect none .document, cs)
  | '<' :: '&' :: cs => some (.redirect none .duplicate, cs)
  | '<' :: cs => some (.redirect none .input, cs)
  | _ => none

/-- A digit and a redirection that it is the descriptor of. -/
def numbered? : List Char → Option (Token × List Char)
  | d :: c :: cs =>
    if d.isDigit && (c == '<' || c == '>') then
      match operator? (c :: cs) with
      | some (.redirect _ kind, rest) => some (.redirect (some (d.toNat - '0'.toNat)) kind, rest)
      | _ => none
    else none
  | _ => none

/-! ## Documents -/

/-- The lines before the one that ends a document, and what comes after that. -/
def documentLines (stop : List Char) (noTabs : Bool) :
    List (List Char) → List (List Char) × List (List Char)
  | [] => ([], [])
  | line :: lines =>
    let line := if noTabs then line.dropWhile (· == '\t') else line
    if line = stop then ([], lines)
    else
      let (body, rest) := documentLines stop noTabs lines
      (line :: body, rest)

/-- The word that a document is, and the text without it. The document begins
    after the line that the text begins with. -/
def document? (cs : List Char) : Option (Word × List Char) := do
  let noTabs := cs.head? == some '-'
  let cs := (if noTabs then cs.tail else cs).dropWhile fun c => c == ' ' || c == '\t'
  let (stop, cs) ← word? endsWord (cs.length + 2) [] cs
  let line := cs.takeWhile (· != '\n')
  let (body, rest) := documentLines (stop.joined fun _ => []).toList noTabs
    ((cs.drop (line.length + 1)).splitOn '\n')
  let text := body.flatMap (· ++ ['\n'])
  let quoted := stop.any fun
    | .text _ quoted => quoted
    | _ => false
  let word ← if quoted then some [.text text true] else quotedWord? text
  return (word, line ++ '\n' :: ['\n'].intercalate rest)

/-! ## Scripts -/

/-- The tokens of a text. What cannot be read ends them. -/
def all : Nat → List Char → List Token
  | 0, _ => []
  | _ + 1, [] => []
  | n + 1, c :: cs =>
    if c = ' ' ∨ c = '\t' then all n cs
    else if c = '#' then all n (cs.dropWhile (· != '\n'))
    else if c = '\\' ∧ cs.head? = some '\n' then all n cs.tail
    else match numbered? (c :: cs) <|> operator? (c :: cs) with
      | some (.redirect fd .document, rest) =>
        match document? rest with
        | some (w, rest) => .redirect fd .document :: .word w :: all n rest
        | none => [.broken]
      | some (token, rest) => token :: all n rest
      | none =>
        match word? endsWord (cs.length + 2) [] (c :: cs) with
        | some (w, rest) => .word w :: all n rest
        | none => [.broken]

/-- The tokens of a script. -/
def ofText (s : String) : List Token := all (s.length + 2) s.toList

end Token

end BuildServer.Shell
