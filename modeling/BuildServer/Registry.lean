-- SUMMARY: The registry of repositories: where each one is and how it configures its build.
import BuildServer.Job
import BuildServer.Journal
import BuildServer.Settings.File

/-!
# Registry

Each section of the registry settings is one repository, with the keys `url`
and `config`. Entries outside of all sections are reported and ignored. That a
repository is unknown shows only when a request names it.
-/

namespace BuildServer

structure Repository where
  name : String
  url : String
  /-- Build configuration file, relative to the checked-out sources. -/
  config : String
  deriving DecidableEq, Repr

/-- The job that a request for this repository describes. -/
def Repository.job (r : Repository) (profile branch revision : String) : Job where
  repo := r.name
  url := r.url
  branch := branch
  revision := revision
  config := r.config
  profile := profile

structure UnknownRepository where
  name : String
  deriving DecidableEq, Repr

def UnknownRepository.message (e : UnknownRepository) : String :=
  s!"unknown repository '{e.name}'"

structure Registry where
  entries : Std.ExtTreeMap String Repository
  /-- Every repository is filed under its own name. -/
  filed : ∀ {name : String} {r : Repository}, entries[name]? = some r → r.name = name

namespace Registry

/-- Setting that names the registry file. -/
def fileKey : String := "repositories.config"

def defaultFile : String := "etc/build-bot/repositories.conf"

def fileRole : FileRole := ⟨"repository config"⟩

def fileOf (s : Settings) : Except SettingsError String :=
  s.getOr .path fileKey defaultFile

/-! ## Construction -/

/-- The repository of one section. -/
def readSection (s : Settings) (name : String) : Except SettingsError Repository := do
  let url ← s.required .text (name ++ ".url")
  let config ← s.required .path (name ++ ".config")
  return { name, url, config }

/-- File a repository. It replaces one of the same name. -/
def file (entries : Std.ExtTreeMap String Repository) (r : Repository) :
    Std.ExtTreeMap String Repository :=
  entries.insert r.name r

theorem filed_file {entries : Std.ExtTreeMap String Repository}
    (h : ∀ {name : String} {r : Repository}, entries[name]? = some r → r.name = name)
    (s : Repository) {name : String} {r : Repository} (hr : (file entries s)[name]? = some r) :
    r.name = name := by
  rw [file, Std.ExtTreeMap.getElem?_insert] at hr
  split at hr
  · next heq =>
    obtain rfl := Option.some.inj hr
    exact Std.LawfulEqCmp.eq_of_compare heq
  · exact h hr

theorem filed_foldl_file (rs : List Repository) {entries : Std.ExtTreeMap String Repository}
    (h : ∀ {name : String} {r : Repository}, entries[name]? = some r → r.name = name)
    {name : String} {r : Repository} (hr : (rs.foldl file entries)[name]? = some r) :
    r.name = name := by
  induction rs generalizing entries with
  | nil => exact h hr
  | cons s rs ih => exact ih (filed_file h s) hr

def ofRepositories (rs : List Repository) : Registry where
  entries := rs.foldl file ∅
  filed := filed_foldl_file rs (by simp)

def ofSettings (s : Settings) : Except SettingsError Registry :=
  (s.sections.toList.mapM (readSection s)).map ofRepositories

/-- The registry in a file, with the settings that it was built from. -/
def load (fs : FileSystem) (path : String) : Except SettingsError (Settings × Registry) := do
  let settings ← Settings.load fs fileRole path
  return (settings, ← ofSettings settings)

/-! ## Look-up -/

def names (r : Registry) : List String := r.entries.keys

def size (r : Registry) : Nat := r.entries.size

def get? (r : Registry) (name : String) : Option Repository :=
  r.entries[name]?

def resolve (r : Registry) (name : String) : Except UnknownRepository Repository :=
  match r.get? name with
  | some repository => .ok repository
  | none => .error ⟨name⟩

/-! ## Events -/

/-- What is reported while a registry is built. -/
inductive Event where
  | looseSetting (key : String)
  deriving DecidableEq, Repr

def Event.entry : Event → JournalEntry
  | .looseSetting key => .warning "ignoring repository setting outside of a section" [("key", key)]

/-- The reports on settings from which a registry was built. -/
def events (s : Settings) : List Event :=
  s.looseKeys.map .looseSetting

end Registry

end BuildServer
