-- SUMMARY: Splitting a command line into words by the quoting rules of the POSIX shell.

/-!
# Quoted words

`splitQuoted` cuts a command line at spaces, tabs and newlines. Single quotes
keep everything, double quotes keep everything but a backslash before `$`, a
backquote, `"`, a backslash or a newline, and a backslash outside quotes keeps
the next character. A `#` where a word would begin starts a comment up to the
end of the line. No expansion of any kind takes place.
-/

namespace BuildServer.Text

namespace Quoted

/-- Where the reader stands between two characters. -/
inductive Mode where
  /-- Between words. -/
  | between
  /-- After a backslash that stands between words. -/
  | escapeBetween
  /-- In a word, outside quotes. -/
  | word
  /-- After a backslash in a word, outside quotes. -/
  | escapeWord
  | single
  | double
  /-- After a backslash in double quotes. -/
  | escapeDouble
  | comment
  deriving DecidableEq, Repr

/-- Characters that separate words. -/
def isSeparator (c : Char) : Bool := c == ' ' || c == '\t' || c == '\n'

/-- Characters that a backslash in double quotes stands for. -/
def isEscapable (c : Char) : Bool := c == '$' || c == '\u0060' || c == '"' || c == '\\'

/-- Read on, with `word` the characters of the current word in reverse. The
    result is absent when a quote is left open. -/
def readFrom : Mode → List Char → List Char → Option (List (List Char))
  | .between, _, [] => some []
  | .escapeBetween, word, [] => some [('\\' :: word).reverse]
  | .word, word, [] => some [word.reverse]
  | .escapeWord, word, [] => some [('\\' :: word).reverse]
  | .single, _, [] => none
  | .double, _, [] => none
  | .escapeDouble, _, [] => none
  | .comment, _, [] => some []
  | .between, word, c :: cs =>
    if c = '\'' then readFrom .single word cs
    else if c = '"' then readFrom .double word cs
    else if c = '\\' then readFrom .escapeBetween word cs
    else if isSeparator c then readFrom .between word cs
    else if c = '#' then readFrom .comment word cs
    else readFrom .word (c :: word) cs
  | .escapeBetween, word, c :: cs =>
    if c = '\n' then readFrom .between word cs else readFrom .word (c :: word) cs
  | .word, word, c :: cs =>
    if c = '\'' then readFrom .single word cs
    else if c = '"' then readFrom .double word cs
    else if c = '\\' then readFrom .escapeWord word cs
    else if isSeparator c then (readFrom .between [] cs).map (word.reverse :: ·)
    else readFrom .word (c :: word) cs
  | .escapeWord, word, c :: cs =>
    if c = '\n' then readFrom .word word cs else readFrom .word (c :: word) cs
  | .single, word, c :: cs =>
    if c = '\'' then readFrom .word word cs else readFrom .single (c :: word) cs
  | .double, word, c :: cs =>
    if c = '"' then readFrom .word word cs
    else if c = '\\' then readFrom .escapeDouble word cs
    else readFrom .double (c :: word) cs
  | .escapeDouble, word, c :: cs =>
    if c = '\n' then readFrom .double word cs
    else if isEscapable c then readFrom .double (c :: word) cs
    else readFrom .double (c :: '\\' :: word) cs
  | .comment, word, c :: cs =>
    if c = '\n' then readFrom .between word cs else readFrom .comment word cs

end Quoted

/-- The words of a command line, or nothing when a quote is left open. -/
def splitQuoted (s : String) : Option (List String) :=
  (Quoted.readFrom .between [] s.toList).map fun ws => ws.map String.ofList

end BuildServer.Text
