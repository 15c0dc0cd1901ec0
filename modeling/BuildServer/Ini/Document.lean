-- SUMMARY: A settings file as data: headers and assignments in file order, and flattened keys.

/-!
# Documents

A document is the list of the headers and assignments of a settings file, in
the order of the file. `flatten` gives the full key of every assignment: the
key itself before the first header, and `section.key` after a header. Nothing
is merged or dropped here; a later assignment of a key wins where the document
is turned into settings.
-/

namespace BuildServer.Ini

/-- What one construct of a settings file contributes. -/
inductive Item where
  | header (name : String)
  | assign (key value : String)
  deriving DecidableEq, Repr

abbrev Document := List Item

/-- The key that an assignment has outside of its section. -/
def fullKey (inside : Option String) (key : String) : String :=
  match inside with
  | none => key
  | some name => name ++ "." ++ key

namespace Document

/-- Full keys and values in file order, for the part of a document that begins
    inside the given section. -/
def flattenFrom : Option String → Document → List (String × String)
  | _, [] => []
  | _, .header name :: items => flattenFrom (some name) items
  | inside, .assign key value :: items => (fullKey inside key, value) :: flattenFrom inside items

def flatten (d : Document) : List (String × String) :=
  flattenFrom none d

/-- The names of all headers in file order. -/
def headers (d : Document) : List String :=
  d.filterMap fun
    | .header name => some name
    | .assign .. => none

end Document

end BuildServer.Ini
