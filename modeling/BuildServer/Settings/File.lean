-- SUMMARY: Reading settings from files that must or may be there.
import BuildServer.FileSystem.Change
import BuildServer.Settings.Value

/-!
# Settings files

A settings file is UTF-8 text, with or without a byte order mark. A required
file must be there; an optional one may be absent, but whatever is there in its
place must be a file that can be read.
-/

namespace BuildServer.Settings

/-- The text of a file, without a byte order mark. -/
def fileText (content : List UInt8) : Except IoError String :=
  match Text.utf8Decode? content with
  | none => .error .notUtf8
  | some text =>
    match text.toList with
    | '\uFEFF' :: rest => .ok (String.ofList rest)
    | _ => .ok text

/-- The settings in a file, or nothing if there is none. -/
def loadOptional (fs : FileSystem) (role : FileRole) (path : String) :
    Except SettingsError (Option Settings) :=
  match fs.stat path with
  | .error .notFound => .ok none
  | .error e => .error (.io path e)
  | .ok (_, .file content _) => do
    let text ← (fileText content).mapError (.io path)
    return some (← ofText path text)
  | .ok (_, .program _) => .error (.io path .notUtf8)
  | .ok _ => .error (.notAFile role path)

/-- The settings in a file that must be there. -/
def load (fs : FileSystem) (role : FileRole) (path : String) : Except SettingsError Settings := do
  match ← loadOptional fs role path with
  | some settings => return settings
  | none => throw (.notFound role path)

end BuildServer.Settings
