-- SUMMARY: What loading settings gives, by what is at the path of the file.
import BuildServer.Settings.File

/-!
# Loading settings

What loading gives is decided by what the path leads to, and then by the bytes
that are there: they have to be a text, and the text a document.
-/

namespace BuildServer.Settings

/-- What loading the file at this path gives. -/
inductive Loads (fs : FileSystem) (role : FileRole) (path : String) :
    Except SettingsError Settings → Prop where
  | missing (hstat : fs.stat path = .error .notFound) : Loads fs role path (.error (.notFound role path))
  | unreachable {e : IoError} (hstat : fs.stat path = .error e) (he : e ≠ .notFound) :
      Loads fs role path (.error (.io path e))
  | notAFile {place : Place} {node : Node} (hstat : fs.stat path = .ok (place, node))
      (hnode : node.isRegular = false) : Loads fs role path (.error (.notAFile role path))
  | program {place : Place} {name : String} (hstat : fs.stat path = .ok (place, .program name)) :
      Loads fs role path (.error (.io path .notUtf8))
  | unreadable {place : Place} {content : List UInt8} {mode : Nat} {e : IoError}
      (hstat : fs.stat path = .ok (place, .file content mode)) (htext : fileText content = .error e) :
      Loads fs role path (.error (.io path e))
  | malformed {place : Place} {content : List UInt8} {mode : Nat} {text : String} {e : Ini.ReadError}
      (hstat : fs.stat path = .ok (place, .file content mode)) (htext : fileText content = .ok text)
      (hdocument : Ini.Document.ofText text = .error e) : Loads fs role path (.error (.parse path e))
  | document {place : Place} {content : List UInt8} {mode : Nat} {text : String} {d : Ini.Document}
      (hstat : fs.stat path = .ok (place, .file content mode)) (htext : fileText content = .ok text)
      (hdocument : Ini.Document.ofText text = .ok d) : Loads fs role path (.ok (.ofDocument d))

variable {fs : FileSystem} {role : FileRole} {path : String}

/-- Where there is text, it is the text that counts. -/
theorem loadOptional_of_fileText {place : Place} {content : List UInt8} {mode : Nat} {text : String}
    (hstat : fs.stat path = .ok (place, .file content mode)) (htext : fileText content = .ok text) :
    loadOptional fs role path = do return some (← ofText path text) := by
  rw [loadOptional, hstat]
  dsimp only
  rw [htext]
  rfl

theorem load_of_fileText {place : Place} {content : List UInt8} {mode : Nat} {text : String}
    (hstat : fs.stat path = .ok (place, .file content mode)) (htext : fileText content = .ok text) :
    load fs role path = ofText path text := by
  rw [load, loadOptional_of_fileText hstat htext]
  cases ofText path text <;> rfl

theorem Loads.load_eq {r : Except SettingsError Settings} (h : Loads fs role path r) :
    load fs role path = r := by
  cases h with
  | missing hstat =>
    rw [load, loadOptional, hstat]
    rfl
  | @unreachable e hstat he =>
    rw [load, loadOptional, hstat]
    cases e with
    | notFound => exact absurd rfl he
    | _ => rfl
  | @notAFile place node hstat hnode =>
    rw [load, loadOptional, hstat]
    cases node with
    | file => cases hnode
    | program => cases hnode
    | _ => rfl
  | program hstat =>
    rw [load, loadOptional, hstat]
    rfl
  | unreadable hstat htext =>
    rw [load, loadOptional, hstat]
    dsimp only
    rw [htext]
    rfl
  | malformed hstat htext hdocument =>
    rw [load_of_fileText hstat htext, ofText, hdocument]
    rfl
  | document hstat htext hdocument =>
    rw [load_of_fileText hstat htext, ofText, hdocument]
    rfl

theorem loads_load (fs : FileSystem) (role : FileRole) (path : String) :
    Loads fs role path (load fs role path) := by
  have loads {r : Except SettingsError Settings} (h : Loads fs role path r) :
      Loads fs role path (load fs role path) := by rwa [h.load_eq]
  rcases hstat : fs.stat path with e | ⟨place, node⟩
  · by_cases he : e = .notFound
    · subst he
      exact loads (.missing hstat)
    · exact loads (.unreachable hstat he)
  cases node with
  | file content mode =>
    rcases htext : fileText content with e | text
    · exact loads (.unreadable hstat htext)
    rcases hdocument : Ini.Document.ofText text with e | d
    · exact loads (.malformed hstat htext hdocument)
    · exact loads (.document hstat htext hdocument)
  | program name => exact loads (.program hstat)
  | _ => exact loads (.notAFile hstat rfl)

/-- Loading gives what is there, and nothing else. -/
theorem load_eq_iff {r : Except SettingsError Settings} :
    load fs role path = r ↔ Loads fs role path r := by
  constructor
  · rintro rfl
    exact loads_load fs role path
  · exact Loads.load_eq

end BuildServer.Settings
