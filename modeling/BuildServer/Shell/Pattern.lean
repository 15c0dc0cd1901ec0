-- SUMMARY: Patterns of the shell, matched against texts and against what directories hold.
import BuildServer.FileSystem.Walk

/-!
# Patterns

In a pattern a star stands for any text, a question mark for any character, and
brackets for one of several characters; what was quoted stands for itself. A
pattern accepts a whole text. As a path, a pattern stands for all paths that it
accepts name by name, where a dot at the start of a name must be written out.
-/

namespace BuildServer.Shell

/-- A character of an expanded word. -/
structure Letter where
  char : Char
  /-- Whether it stands for itself, because it was quoted. -/
  literal : Bool
  deriving DecidableEq, Repr

namespace Letter

def ofChars (literal : Bool) (chars : List Char) : List Letter := chars.map (⟨·, literal⟩)

def text (letters : List Letter) : String := String.ofList (letters.map (·.char))

/-- A character that makes a pattern of the word it is in. -/
def isSpecial (l : Letter) : Bool :=
  !l.literal && (l.char == '*' || l.char == '?' || l.char == '[')

end Letter

/-- What one place of a pattern accepts. -/
inductive PatternItem where
  | char (c : Char)
  | anyChar
  | anyText
  /-- One character in one of the ranges, or in none of them. -/
  | among (inside : Bool) (ranges : List (Char × Char))
  deriving DecidableEq, Repr

abbrev Pattern := List PatternItem

namespace Pattern

/-! ## Reading -/

/-- The ranges up to the bracket that closes them, and what comes after it. A
    bracket at the very start does not close them. -/
def ranges? (atStart : Bool) : List Letter → Option (List (Char × Char) × List Letter)
  | [] => none
  | ⟨']', false⟩ :: rest =>
    if atStart then do
      let (ranges, rest) ← ranges? false rest
      return ((']', ']') :: ranges, rest)
    else some ([], rest)
  | a :: ⟨'-', false⟩ :: b :: rest =>
    if b = ⟨']', false⟩ then some ([(a.char, a.char), ('-', '-')], rest)
    else do
      let (ranges, rest) ← ranges? false rest
      return ((a.char, b.char) :: ranges, rest)
  | a :: rest => do
    let (ranges, rest) ← ranges? false rest
    return ((a.char, a.char) :: ranges, rest)

/-- The item of a bracket that has just been opened. -/
def among? : List Letter → Option (PatternItem × List Letter)
  | ⟨'!', false⟩ :: letters =>
    (ranges? true letters).map fun (ranges, rest) => (.among false ranges, rest)
  | letters => (ranges? true letters).map fun (ranges, rest) => (.among true ranges, rest)

/-- Read a pattern. A bracket that is never closed stands for itself. The number
    bounds the letters. -/
def read : Nat → List Letter → Pattern
  | 0, _ => []
  | _ + 1, [] => []
  | n + 1, l :: rest =>
    if !l.isSpecial then .char l.char :: read n rest
    else if l.char = '*' then .anyText :: read n rest
    else if l.char = '?' then .anyChar :: read n rest
    else match among? rest with
      | some (item, rest) => item :: read n rest
      | none => .char l.char :: read n rest

def ofLetters (letters : List Letter) : Pattern := read letters.length letters

/-! ## Matching -/

/-- Whether something holds for the end of a text from some place on. -/
def someEnd (p : List Char → Bool) : List Char → Bool
  | [] => p []
  | c :: cs => p (c :: cs) || someEnd p cs

def accepts : Pattern → List Char → Bool
  | [], cs => cs.isEmpty
  | .anyText :: p, cs => someEnd (accepts p) cs
  | _ :: _, [] => false
  | .char c :: p, d :: cs => c == d && accepts p cs
  | .anyChar :: p, _ :: cs => accepts p cs
  | .among inside ranges :: p, d :: cs =>
    ranges.any (fun (low, high) => low ≤ d && d ≤ high) == inside && accepts p cs

/-- All ways to cut a text in two, those with a short first part first. -/
def cuts (cs : List Char) : List (List Char × List Char) :=
  (List.range (cs.length + 1)).map fun n => (cs.take n, cs.drop n)

/-- A text without the start that a pattern accepts. -/
def dropStart (p : Pattern) (longest : Bool) (cs : List Char) : List Char :=
  let found := (cuts cs).filter fun cut => p.accepts cut.1
  ((if longest then found.getLast? else found.head?).map (·.2)).getD cs

/-- A text without the end that a pattern accepts. -/
def dropEnd (p : Pattern) (longest : Bool) (cs : List Char) : List Char :=
  let found := (cuts cs).filter fun cut => p.accepts cut.2
  ((if longest then found.head? else found.getLast?).map (·.1)).getD cs

/-! ## Paths -/

/-- The names in a directory, in order. -/
def namesIn (fs : FileSystem) (dir : String) : List String :=
  match fs.stat dir with
  | .ok (place, .directory) =>
    (fs.below place).filterMap fun (p, _) =>
      if p.length = place.length + 1 then p.getLast? else none
  | _ => []

/-- The names that one segment of a path stands for in a directory. -/
def choices (fs : FileSystem) (dir : String) (segment : List Letter) : List String :=
  if segment.any Letter.isSpecial then
    let hidden := segment.head?.any (·.char == '.')
    let names := namesIn fs (if dir.isEmpty then "." else dir)
    (if hidden then "." :: ".." :: names else names).filter fun name =>
      (hidden || name.toList.head? != some '.') && (ofLetters segment).accepts name.toList
  else [Letter.text segment]

/-- The existing paths that segments stand for, after a path that ends in a slash
    or is empty. -/
def paths (fs : FileSystem) : String → List (List Letter) → List String
  | _, [] => []
  | before, [segment] =>
    ((choices fs before segment).map (before ++ ·)).filter fun path =>
      match fs.walk false path with
      | .ok (.found ..) => true
      | _ => false
  | before, segment :: rest =>
    (choices fs before segment).flatMap fun name => paths fs (before ++ name ++ "/") rest

/-- What a field stands for: the paths that match it, or itself if there are none. -/
def expandPath (fs : FileSystem) (field : List Letter) : List String :=
  let found := if field.any Letter.isSpecial then
    paths fs "" (field.splitOnP fun l => l.char == '/') else []
  if found.isEmpty then [Letter.text field] else found

end Pattern

end BuildServer.Shell
