-- SUMMARY: What can be wrong with settings: their file, their text, a key or a value.
import BuildServer.BuildId
import BuildServer.FileSystem.Error
import BuildServer.Ini.Reader
import BuildServer.Text.Integer

/-!
# Settings errors

`ValueError` is the cause for which one value is refused; `SettingsError` adds
the key it stands under and covers the faults of whole files.
-/

namespace BuildServer

/-- Why a text is no value of the wanted type. -/
inductive ValueError where
  | integer (cause : Text.IntegerError)
  | notBoolean
  | buildId (cause : BuildId.ParseError)
  | belowOne
  deriving DecidableEq, Repr

def ValueError.message : ValueError → String
  | .integer cause => cause.message
  | .notBoolean => "provided string was not \u0060true\u0060 or \u0060false\u0060"
  | .buildId cause => cause.message
  | .belowOne => "must be at least 1"

/-- The role of a settings file. -/
structure FileRole where
  name : String
  deriving DecidableEq, Repr

inductive SettingsError where
  | notFound (role : FileRole) (path : String)
  | notAFile (role : FileRole) (path : String)
  | parse (path : String) (cause : Ini.ReadError)
  | io (path : String) (cause : IoError)
  | missingKey (key : String)
  | invalidValue (key value : String) (reason : ValueError)
  deriving DecidableEq, Repr

namespace SettingsError

def message : SettingsError → String
  | .notFound role path => s!"{role.name} {path} doesn't exist"
  | .notAFile role path => s!"{role.name} {path} exists but isn't a regular file"
  | .parse path cause => s!"failed to parse {path}: {cause.message}"
  | .io path cause => s!"I/O error at {path}: {cause.message}"
  | .missingKey key => s!"missing required setting '{key}'"
  | .invalidValue key value reason =>
    s!"invalid value '{value}' for setting '{key}': {reason.message}"

/-- The text of the fault beneath, where the error wraps one. -/
def cause? : SettingsError → Option String
  | .parse _ cause => some cause.message
  | .io _ cause => some cause.message
  | _ => none

end SettingsError

end BuildServer
