-- SUMMARY: Named values, and the expansion of the tokens that stand for them in a text.
import BuildServer.Settings.Basic

/-!
# Bindings

A token is a name between two `@` signs. Expanding a text replaces every token
whose name is bound by its value, and fails at the first one that reads like a
name but is not bound. An `@` that begins no token stays, and what a value
contains is never looked at again.
-/

namespace BuildServer

structure Bindings where
  values : Std.ExtTreeMap String String

/-- A token whose name is not bound. -/
structure UnresolvedToken where
  name : String
  deriving DecidableEq, Repr

def UnresolvedToken.message (e : UnresolvedToken) : String :=
  s!"unresolved macro token '@{e.name}@'"

namespace Bindings

def empty : Bindings := ⟨∅⟩

def get? (b : Bindings) (name : String) : Option String :=
  b.values[name]?

def size (b : Bindings) : Nat := b.values.size

def insert (b : Bindings) (name value : String) : Bindings :=
  ⟨b.values.insert name value⟩

/-- Add all entries of the settings. -/
def extend (b : Bindings) (s : Settings) : Bindings :=
  s.entries.foldl insert b

/-! ## Expansion -/

/-- Characters of names that are taken for tokens even when unbound. -/
def isNameChar (c : Char) : Bool :=
  c.isAlphanum || c == '_' || c == '.' || c == '-'

/-- What stands between two `@` signs. -/
inductive Between where
  | bound (value : String)
  /-- A name without a value. -/
  | unbound
  /-- No name: the first of the two signs is plain text. -/
  | plain

def between (b : Bindings) (text : List Char) : Between :=
  if text.isEmpty then .plain
  else match b.get? (String.ofList text) with
    | some value => .bound value
    | none => if text.all isNameChar then .unbound else .plain

/-- Expand from left to right. After an `@` that may begin a token, the
    characters since then are kept in reverse. -/
def expandFrom (b : Bindings) : Option (List Char) → List Char → Except UnresolvedToken (List Char)
  | none, [] => .ok []
  | some held, [] => .ok ('@' :: held.reverse)
  | none, c :: cs =>
    if c = '@' then expandFrom b (some []) cs else (expandFrom b none cs).map (c :: ·)
  | some held, c :: cs =>
    if c = '@' then
      match b.between held.reverse with
      | .bound value => (expandFrom b none cs).map (value.toList ++ ·)
      | .unbound => .error ⟨String.ofList held.reverse⟩
      | .plain => (expandFrom b (some []) cs).map ('@' :: held.reverse ++ ·)
    else expandFrom b (some (c :: held)) cs

def expand (b : Bindings) (s : String) : Except UnresolvedToken String :=
  (b.expandFrom none s.toList).map String.ofList

end Bindings

end BuildServer
