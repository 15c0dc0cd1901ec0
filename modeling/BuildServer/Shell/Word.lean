-- SUMMARY: Words of the shell language and their expansion into fields.
import BuildServer.Shell.Pattern

/-!
# Words

A word is a sequence of pieces: text, parameters, command output and
calculations, each quoted or not. Expanding a word gives any number of fields.
Only what comes from an unquoted piece other than text is split at blanks, and
only quotes keep an empty field. What had no quotes may still make a pattern of
its field.
-/

namespace BuildServer.Shell

/-- What is made of a parameter. Some edits treat an empty value like none. -/
inductive Edit where
  | length
  /-- Another text where there is no value. -/
  | fallback (evenEmpty : Bool)
  /-- The same, and the other text becomes the value. -/
  | assign (evenEmpty : Bool)
  /-- Fail where there is no value. -/
  | demand (evenEmpty : Bool)
  /-- Another text where there is a value. -/
  | replace (evenEmpty : Bool)
  | dropStart (longest : Bool)
  | dropEnd (longest : Bool)
  /-- No edit at all, which fails. -/
  | invalid
  deriving DecidableEq, Repr

inductive Piece where
  | text (chars : List Char) (quoted : Bool)
  | param (name : String) (quoted : Bool)
  /-- A parameter and an edit, whose argument is still to be read. -/
  | edited (name : String) (edit : Edit) (arg : List Char) (quoted : Bool)
  /-- The output of a command that is still to be run. -/
  | output (script : String) (quoted : Bool)
  /-- The value of a calculation that is still to be read. -/
  | calculation (source : List Char) (quoted : Bool)
  /-- What one of these has given. -/
  | value (text : String) (quoted : Bool)
  deriving DecidableEq, Repr

abbrev Word := List Piece

/-- The text of a word without quotes and expansions. -/
def Word.plain? : Word → Option String
  | [.text chars false] => some (String.ofList chars)
  | _ => none

/-! ## Fields -/

/-- Characters at which expansions are split. -/
def isFieldBlank (c : Char) : Bool := c == ' ' || c == '\t' || c == '\n'

/-- Finished fields, and the one that is being put together if there is one. -/
structure Fields where
  done : List (List Letter)
  current : Option (List Letter)
  deriving Repr

namespace Fields

def none : Fields := ⟨[], .none⟩

def add (f : Fields) (letters : List Letter) : Fields :=
  { f with current := some (f.current.getD [] ++ letters) }

/-- Add a text in quotes. -/
def addQuoted (f : Fields) (text : String) : Fields := f.add (Letter.ofChars true text.toList)

/-- End the current field. -/
def cut (f : Fields) : Fields :=
  match f.current with
  | .none => f
  | some letters => ⟨f.done ++ [letters], .none⟩

/-- Add a text that is split at blanks. -/
def addSplit (f : Fields) (text : String) : Fields :=
  text.toList.foldl (fun f c => if isFieldBlank c then f.cut else f.add [⟨c, false⟩]) f

/-- Add values that each begin a field of their own, except that the first one
    goes on with the current field. -/
def addAll (f : Fields) (add : Fields → String → Fields) : List String → Fields
  | [] => f
  | [value] => add f value
  | value :: values => (add f value).cut.addAll add values

def toList (f : Fields) : List (List Letter) := f.cut.done

end Fields

/-! ## Expansion -/

/-- The value of a parameter as one text. -/
def wholeValue (values : String → List String) (name : String) : String :=
  " ".intercalate (values name)

/-- Expand one piece. A parameter has one value, except for the list of all
    arguments. What is still to be run or read must have been replaced before. -/
def Piece.expand (values : String → List String) (f : Fields) : Piece → Fields
  | .text chars quoted => f.add (Letter.ofChars quoted chars)
  | .param "@" true => f.addAll .addQuoted (values "@")
  | .param name true => f.addQuoted (wholeValue values name)
  | .param name false => f.addAll .addSplit (values name)
  | .value shown true => f.addQuoted shown
  | .value shown false => f.addSplit shown
  | .edited .. | .output .. | .calculation .. => f

/-- The fields of a word. -/
def Word.fields (values : String → List String) (w : Word) : List (List Letter) :=
  (w.foldl (Piece.expand values) .none).toList

/-- A piece where nothing is split. -/
def Piece.letters (values : String → List String) : Piece → List Letter
  | .text chars quoted => Letter.ofChars quoted chars
  | .param name quoted => Letter.ofChars quoted (wholeValue values name).toList
  | .value shown quoted => Letter.ofChars quoted shown.toList
  | .edited .. | .output .. | .calculation .. => []

/-- A word where nothing is split. -/
def Word.letters (values : String → List String) (w : Word) : List Letter :=
  w.flatMap (Piece.letters values)

/-- The text of a word where nothing is split. -/
def Word.joined (values : String → List String) (w : Word) : String :=
  Letter.text (w.letters values)

end BuildServer.Shell
