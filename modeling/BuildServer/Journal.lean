-- SUMMARY: Journal entries: severity, message and named details.

/-!
# Journal

What the server reports about its work is a list of entries. Each part of the
server has its own type of events and says which entry an event becomes.
-/

namespace BuildServer

inductive Severity where
  | info
  | warning
  | error
  deriving DecidableEq, Repr

structure JournalEntry where
  severity : Severity
  message : String
  details : List (String × String)
  deriving DecidableEq, Repr

namespace JournalEntry

def info (message : String) (details : List (String × String)) : JournalEntry :=
  ⟨.info, message, details⟩

def warning (message : String) (details : List (String × String)) : JournalEntry :=
  ⟨.warning, message, details⟩

def error (message : String) (details : List (String × String)) : JournalEntry :=
  ⟨.error, message, details⟩

end JournalEntry

end BuildServer
