-- SUMMARY: What the command line program prints and how it reports failures.

/-!
# Reports

A failure is told from the outside in: what could not be done, and below it the
chain of causes. A single cause stands alone; several are numbered. Further
lines of a text are indented like its first.
-/

namespace BuildServer.CommandLine

/-- What a program prints, and its exit code. -/
structure Output where
  code : Nat
  stdout : String
  stderr : String
  deriving DecidableEq, Repr

/-- What could not be done, with its causes from the outside in. -/
structure Failure where
  message : String
  causes : List String
  deriving DecidableEq, Repr

namespace Failure

/-- Lines of a text with something before the first and before each other. -/
def indented (first later text : String) : String :=
  first ++ ("\n" ++ later).intercalate ((text.toList.splitOn '\n').map String.ofList)

/-- The numbered causes. -/
def numbered : Nat → List String → List String
  | _, [] => []
  | n, text :: texts => indented s!"    {n}: " "       " text :: numbered (n + 1) texts

def causeLines : List String → List String
  | [] => []
  | [text] => ["", "Caused by:", indented "    " "    " text]
  | texts => "" :: "Caused by:" :: numbered 0 texts

def text (f : Failure) : String :=
  "\n".intercalate (s!"Error: {f.message}" :: causeLines f.causes) ++ "\n"

def output (f : Failure) : Output := ⟨1, "", f.text⟩

end Failure

end BuildServer.CommandLine
