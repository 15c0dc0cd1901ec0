-- SUMMARY: White space as Unicode defines it: trimming, words and the test for one unbroken word.

/-!
# Blanks

`isBlank` is the Unicode property `White_Space`, wider than `Char.isWhitespace`.
Trimming and word splitting of control lines, setting values and command line
fields all use this one class.
-/

namespace BuildServer.Text

/-- Membership in the Unicode property `White_Space`. -/
def isBlank (c : Char) : Bool :=
  ('\t' ≤ c && c ≤ '\r') || c == ' ' || c == '\u0085' || c == '\u00a0' || c == '\u1680'
    || ('\u2000' ≤ c && c ≤ '\u200a') || c == '\u2028' || c == '\u2029' || c == '\u202f'
    || c == '\u205f' || c == '\u3000'

/-- Core's class of blanks holds ASCII characters only and is part of this one. -/
theorem isBlank_of_isWhitespace {c : Char} (h : c.isWhitespace) : isBlank c := by
  simp only [Char.isWhitespace, Bool.or_eq_true, decide_eq_true_eq] at h
  rcases h with ((h | h) | h) | h <;> subst h <;> decide

/-! ## Trimming -/

/-- Drop the longest final part whose characters all satisfy `p`. -/
def dropTail (p : Char → Bool) (s : List Char) : List Char :=
  (s.reverse.dropWhile p).reverse

def trimChars (s : List Char) : List Char :=
  dropTail isBlank (s.dropWhile isBlank)

/-- A text without its leading and trailing blanks. -/
def trim (s : String) : String :=
  String.ofList (trimChars s.toList)

/-! ## Words -/

def wordChars (s : List Char) : List (List Char) :=
  (s.splitOnP isBlank).filter fun w => !w.isEmpty

/-- The maximal runs of characters that are not blank, in order. -/
def words (s : String) : List String :=
  (wordChars s.toList).map String.ofList

/-- A text that is exactly one word: not empty, and no character of it is blank. -/
def isWord (s : String) : Bool :=
  !s.toList.isEmpty && !s.toList.any isBlank

end BuildServer.Text
