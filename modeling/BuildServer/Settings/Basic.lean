-- SUMMARY: Settings: values by full key, and the names of the sections.
import Std.Data.ExtTreeMap
import Std.Data.ExtTreeSet
import BuildServer.Ini.Document

/-!
# Settings

Settings are a finite map from full keys to values together with the set of
section names. A section may be empty, and a key may hold a dot without
belonging to any section, so neither part determines the other.
-/

namespace BuildServer

structure Settings where
  entries : Std.ExtTreeMap String String
  sections : Std.ExtTreeSet String

namespace Settings

/-- Map of the given entries; of two with the same key the later one wins. -/
def mapOf (entries : List (String × String)) : Std.ExtTreeMap String String :=
  entries.foldl (fun m e => m.insert e.1 e.2) ∅

def ofDocument (d : Ini.Document) : Settings where
  entries := mapOf d.flatten
  sections := .ofList d.headers

/-- The section that a full key lies in, if it has a dot. -/
def sectionOf? (key : String) : Option String :=
  let name := key.toList.takeWhile (· != '.')
  if name.length < key.length then some (String.ofList name) else none

/-- Settings given as full keys with values. The part of a key before its first
    dot is a section. -/
def ofPairs (pairs : List (String × String)) : Settings where
  entries := mapOf pairs
  sections := .ofList (pairs.filterMap fun p => sectionOf? p.1)

/-! ## Look-up -/

def get? (s : Settings) (key : String) : Option String :=
  s.entries[key]?

def size (s : Settings) : Nat := s.entries.size

/-- The part of a full key that follows the section name and a dot. -/
def keyWithin? (name key : String) : Option String :=
  ((name.toList ++ ['.']).isPrefixOf? key.toList).map String.ofList

/-- The entries whose keys begin with the section name and a dot, by the rest
    of the key, in the order of the keys. -/
def entriesWithin (s : Settings) (name : String) : List (String × String) :=
  s.entries.toList.filterMap fun (key, value) => (keyWithin? name key).map (·, value)

/-- Keys outside of every section, in order. -/
def looseKeys (s : Settings) : List String :=
  s.entries.keys.filter fun key => (sectionOf? key).isNone

end Settings

end BuildServer
