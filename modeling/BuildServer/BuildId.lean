-- SUMMARY: Build identifiers: eight lowercase hexadecimal digits.
import BuildServer.Text.Utf8

/-!
# Build identifiers

Each build works in a directory of its own, named by a build identifier of
eight lowercase hexadecimal digits. Identifiers are parsed from text or drawn
from a supply; they tell builds apart and keep no secret.
-/

namespace BuildServer

namespace BuildId

def length : Nat := 8

/-- Lowercase hexadecimal digits. -/
def isDigit (c : Char) : Bool := c.isDigit || ('a' ≤ c && c ≤ 'f')

end BuildId

/-- Eight lowercase hexadecimal digits. -/
structure BuildId where
  text : String
  length_text : text.length = BuildId.length
  all_digits : text.toList.all BuildId.isDigit = true
  deriving DecidableEq

namespace BuildId

/-! ## Parsing -/

/-- Why a text is no build identifier. The length counts bytes. -/
inductive ParseError where
  | wrongLength (text : String)
  | wrongDigit (text : String)
  deriving DecidableEq, Repr

def ParseError.message : ParseError → String
  | .wrongLength text => s!"build id '{text}' must be {length} characters long"
  | .wrongDigit text => s!"build id '{text}' must be lowercase hex"

theorem isDigit_ascii {c : Char} (h : isDigit c) : c.utf8Size = 1 := by
  have hlast : c ≤ 'f' := by
    simp only [isDigit, Bool.or_eq_true, Bool.and_eq_true, decide_eq_true_eq] at h
    rcases h with h | h
    · simp only [Char.isDigit, Bool.and_eq_true, decide_eq_true_eq] at h
      exact UInt32.le_trans h.2 (by decide)
    · exact h.2
  have : c.val ≤ 0x7f := UInt32.le_trans hlast (by decide)
  simp [Char.utf8Size, this]

/-- Text of digits only has one byte for each of them. -/
theorem length_utf8Encode {s : String} (h : s.toList.all isDigit = true) :
    (Text.utf8Encode s).length = s.length := by
  rw [← String.length_toList, Text.utf8Encode]
  generalize s.toList = cs at h
  induction cs with
  | nil => rfl
  | cons c cs ih =>
    simp only [List.all_cons, Bool.and_eq_true] at h
    simp [isDigit_ascii h.1, ih h.2, Nat.add_comm]

def parse (s : String) : Except ParseError BuildId :=
  if hlen : (Text.utf8Encode s).length = length then
    if hdig : s.toList.all isDigit = true then
      .ok ⟨s, by rw [← length_utf8Encode hdig, hlen], hdig⟩
    else .error (.wrongDigit s)
  else .error (.wrongLength s)

/-! ## Drawing -/

def digit (n : Fin 16) : Char :=
  if n < 10 then Char.ofNat ('0'.toNat + n) else Char.ofNat ('a'.toNat + (n - 10))

theorem isDigit_digit : ∀ n : Fin 16, isDigit (digit n) = true := by decide

/-- The identifier with the given digits. -/
def ofDigits (ds : Fin length → Fin 16) : BuildId where
  text := String.ofList ((List.ofFn ds).map digit)
  length_text := by simp
  all_digits := by simp [isDigit_digit]

/-- A source of identifiers: a word that each draw replaces by the next one of
    a sequence that runs through all words before it repeats. -/
structure Supply where
  word : BitVec 32
  deriving DecidableEq, Repr

namespace Supply

def next (s : Supply) : Supply := ⟨s.word * 1664525 + 1013904223⟩

/-- Digit `i` of the current word. -/
def nibble (s : Supply) (i : Fin length) : Fin 16 :=
  ⟨(s.word.toNat / Nat.pow 16 i.val) % 16, Nat.mod_lt _ (by decide)⟩

/-- Draw an identifier. -/
def draw (s : Supply) : BuildId × Supply :=
  (ofDigits s.nibble, s.next)

end Supply

end BuildId

end BuildServer
