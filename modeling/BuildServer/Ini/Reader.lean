-- SUMMARY: Reading a settings file character by character into a document.
import BuildServer.Ini.Document
import BuildServer.Text.Blank

/-!
# Reading documents

The reader is a machine that takes one character at a time. Between constructs
it looks for a comment, a header, a key or a separator; inside a name, a key or
a value it gathers text up to the character that ends it. A backslash keeps the
character after it from ending anything, and is kept itself, except before a
newline, where both disappear and the text goes on.

Three rules depend on where a line starts: a comment must stand in the first
column, a line that starts with a space or a tab holds a key or a header but
never a comment, and an unfinished key on such a line is forgotten at the end
of the text.
-/

namespace BuildServer.Ini

/-! ## Errors -/

/-- How many newlines have been read, and how many characters after the last. -/
structure Position where
  line : Nat
  column : Nat
  deriving DecidableEq, Repr

def Position.start : Position := ⟨0, 0⟩

def Position.after (p : Position) (c : Char) : Position :=
  if c = '\n' then ⟨p.line + 1, 0⟩ else ⟨p.line, p.column + 1⟩

inductive Fault where
  | inlineComment
  | missingKey
  | unclosedHeader
  | unfinishedKey
  deriving DecidableEq, Repr

def Fault.message : Fault → String
  | .inlineComment => "doesn't support inline comment"
  | .missingKey => "missing key"
  | .unclosedHeader => "expecting \"[Some(']')]\" but found EOF."
  | .unfinishedKey => "expecting \"[Some('='), Some(':')]\" but found EOF."

/-- Why a text is no document, and where that showed. -/
structure ReadError where
  position : Position
  fault : Fault
  deriving DecidableEq, Repr

def ReadError.message (e : ReadError) : String :=
  s!"{e.position.line + 1}:{e.position.column + 1} {e.fault.message}"

/-! ## States -/

/-- What the reader is in the middle of. Gathered text is kept in reverse, and
    `escaped` says that a backslash has been read and waits for its character. -/
inductive Mode where
  /-- A construct may begin here. -/
  | ready
  /-- Skipping blanks between constructs. -/
  | blanks
  /-- As `blanks`, just after a line break: a space or a tab here begins an
      indented line. -/
  | lineStart
  | comment
  /-- In the spaces and tabs that begin an indented line. -/
  | indent
  | header (text : List Char) (escaped : Bool)
  | key (indented : Bool) (text : List Char) (escaped : Bool)
  /-- In the blanks between a separator and its value. -/
  | beforeValue
  | value (text : List Char) (escaped : Bool)
  deriving DecidableEq, Repr

structure State where
  position : Position
  mode : Mode
  /-- The key that waits for its separator, empty when there is none. -/
  key : List Char
  /-- The items read so far, the last one first. -/
  items : List Item
  deriving DecidableEq, Repr

namespace State

def start : State := ⟨.start, .ready, [], []⟩

def enter (s : State) (m : Mode) : State := { s with mode := m }

def fail (s : State) (f : Fault) : Except ReadError State := .error ⟨s.position, f⟩

/-- The gathered text as it stands in a document. -/
def gathered (text : List Char) : String :=
  String.ofList (Text.trimChars text.reverse)

def addHeader (s : State) (text : List Char) : State :=
  { s with items := .header (gathered text) :: s.items }

def setKey (s : State) (text : List Char) : State :=
  { s with key := Text.trimChars text.reverse }

/-- Record the pending key with its value. -/
def addValue (s : State) (text : List Char) : State :=
  { s with items := .assign (String.ofList s.key) (gathered text) :: s.items, key := [] }

end State

/-! ## One character -/

def isIndent (c : Char) : Bool := c == ' ' || c == '\t'

def isBreak (c : Char) : Bool := c == '\n' || c == '\r'

def isSeparator (c : Char) : Bool := c == '=' || c == ':'

/-- Text that grows by the character after a backslash. -/
def afterEscape (text : List Char) (c : Char) : List Char :=
  if c = '\n' then text else c :: '\\' :: text

namespace State

/-- A separator needs a pending key. -/
def separator (s : State) : Except ReadError State :=
  if s.key.isEmpty then s.fail .missingKey else .ok (s.enter .beforeValue)

def inKey (s : State) (indented : Bool) (text : List Char) (escaped : Bool) (c : Char) :
    Except ReadError State :=
  if escaped then .ok (s.enter (.key indented (afterEscape text c) false))
  else if c = '\\' then .ok (s.enter (.key indented text true))
  else if isSeparator c then (s.setKey text).separator
  else .ok (s.enter (.key indented (c :: text) false))

def inReady (s : State) (c : Char) : Except ReadError State :=
  if c = ';' ∨ c = '#' then
    if 1 < s.position.column then s.fail .inlineComment else .ok (s.enter .comment)
  else if c = '[' then .ok (s.enter (.header [] false))
  else if isSeparator c then s.separator
  else if isIndent c then .ok (s.enter .indent)
  else if isBreak c then .ok (s.enter .blanks)
  else s.inKey false [] false c

def inBlanks (s : State) (c : Char) : Except ReadError State :=
  if isIndent c then .ok (s.enter .blanks)
  else if isBreak c then .ok (s.enter .lineStart)
  else if Text.isBlank c then .ok (s.enter .blanks)
  else s.inReady c

def inLineStart (s : State) (c : Char) : Except ReadError State :=
  if isIndent c then s.inReady c else s.inBlanks c

def inIndent (s : State) (c : Char) : Except ReadError State :=
  if isIndent c then .ok (s.enter .indent)
  else if c = '[' then .ok (s.enter (.header [] false))
  else if isBreak c then .ok (s.enter .ready)
  else s.inKey true [] false c

def inHeader (s : State) (text : List Char) (escaped : Bool) (c : Char) : State :=
  if escaped then s.enter (.header (afterEscape text c) false)
  else if c = '\\' then s.enter (.header text true)
  else if c = ']' then (s.addHeader text).enter .blanks
  else s.enter (.header (c :: text) false)

def inValue (s : State) (text : List Char) (escaped : Bool) (c : Char) : Except ReadError State :=
  if escaped then .ok (s.enter (.value (afterEscape text c) false))
  else if c = '\\' then .ok (s.enter (.value text true))
  else if isBreak c then (s.addValue text).inBlanks c
  else .ok (s.enter (.value (c :: text) false))

/-- Read one character. -/
def next (s : State) (c : Char) : Except ReadError State :=
  let s := { s with position := s.position.after c }
  match s.mode with
  | .ready => s.inReady c
  | .blanks => s.inBlanks c
  | .lineStart => s.inLineStart c
  | .comment => .ok (s.enter (if c = '\n' then .blanks else .comment))
  | .indent => s.inIndent c
  | .header text escaped => .ok (s.inHeader text escaped c)
  | .key indented text escaped => s.inKey indented text escaped c
  | .beforeValue =>
    if Text.isBlank c && !isBreak c then .ok (s.enter .beforeValue) else s.inValue [] false c
  | .value text escaped => s.inValue text escaped c

/-- The end of the text: an open header or key is a fault, except for a key on
    an indented line, and an open value is complete. -/
def finish (s : State) : Except ReadError State :=
  match s.mode with
  | .header .. => s.fail .unclosedHeader
  | .key false _ _ => s.fail .unfinishedKey
  | .beforeValue => .ok (s.addValue [])
  | .value text escaped => .ok (s.addValue (if escaped then '\\' :: text else text))
  | _ => .ok s

/-- Read characters up to the first fault. -/
def run : State → List Char → Except ReadError State
  | s, [] => .ok s
  | s, c :: cs => do (← s.next c).run cs

end State

/-! ## Documents -/

/-- The document that a text is. -/
def Document.ofText (text : String) : Except ReadError Document := do
  let s ← (← State.start.run text.toList).finish
  return s.items.reverse

end BuildServer.Ini
