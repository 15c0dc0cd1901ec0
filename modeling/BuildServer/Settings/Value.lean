-- SUMMARY: Reading settings as values of a type, required or with a default.
import BuildServer.Settings.Basic
import BuildServer.Settings.Error

/-!
# Typed settings

A `ValueType` is a way to read a text as a value. A required setting must be
present; an optional one falls back to its default only when its key is absent,
so that a value which cannot be read is an error in both cases.
-/

namespace BuildServer

/-- A reading of texts as values. -/
structure ValueType (α : Type) where
  read : String → Except ValueError α

namespace ValueType

variable {α β : Type}

/-- Any text, taken as it is. -/
def text : ValueType String := ⟨.ok⟩

/-- Any text, taken as a path. -/
def path : ValueType String := ⟨.ok⟩

def integer (r : Text.IntegerRange) : ValueType Int :=
  ⟨fun s => (Text.readInteger r s).mapError .integer⟩

/-- A count of 64 bits. -/
def count : ValueType Nat :=
  ⟨fun s => ((integer (.unsigned 64)).read s).map Int.toNat⟩

def boolean : ValueType Bool :=
  ⟨fun s => if s = "true" then .ok true else if s = "false" then .ok false else .error .notBoolean⟩

def buildId : ValueType BuildId :=
  ⟨fun s => (BuildId.parse s).mapError .buildId⟩

/-- Render the values of a type as text. -/
def map (t : ValueType α) (f : α → β) : ValueType β :=
  ⟨fun s => (t.read s).map f⟩

/-- Read the value of a setting. -/
def readAt (t : ValueType α) (key value : String) : Except SettingsError α :=
  (t.read value).mapError (.invalidValue key value)

end ValueType

namespace Settings

variable {α : Type}

def required (s : Settings) (t : ValueType α) (key : String) : Except SettingsError α :=
  match s.get? key with
  | none => .error (.missingKey key)
  | some value => t.readAt key value

def getOr (s : Settings) (t : ValueType α) (key : String) (default : α) : Except SettingsError α :=
  match s.get? key with
  | none => .ok default
  | some value => t.readAt key value

/-- Name under which text held in memory appears in messages. -/
def inlinePath : String := "<inline>"

/-- Settings of a text that was read from the given path. -/
def ofText (path text : String) : Except SettingsError Settings :=
  ((Ini.Document.ofText text).map ofDocument).mapError (.parse path)

/-- Settings of a text held in memory. -/
def parse (text : String) : Except SettingsError Settings :=
  ofText inlinePath text

end Settings

end BuildServer
