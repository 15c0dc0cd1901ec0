-- SUMMARY: Settings that are written as loose assignments and sections are read back as they were written.
import BuildServer.Proofs.Ini.Writing
import BuildServer.Settings.Value

/-!
# Writing settings

Settings are written as loose assignments and then blocks, each a section name with
the assignments under it. Names and keys may come again. What is read back is the
set of all names and, for each full key, the value that was written last.
-/

namespace BuildServer.Settings

open Ini (Document Item IsKey IsName IsValue)

/-! ## Blocks -/

/-- A key with its value. -/
structure Assignment where
  key : String
  value : String
  deriving DecidableEq, Repr

/-- A section with what is assigned in it. -/
structure Block where
  name : String
  assignments : List Assignment
  deriving DecidableEq, Repr

def Assignment.item (a : Assignment) : Item := .assign a.key a.value

structure Assignment.Writable (a : Assignment) : Prop where
  key : IsKey a.key
  value : IsValue a.value

instance (a : Assignment) : Decidable a.Writable :=
  decidable_of_iff (IsKey a.key ∧ IsValue a.value) ⟨fun h => ⟨h.1, h.2⟩, fun h => ⟨h.key, h.value⟩⟩

structure Block.Writable (b : Block) : Prop where
  name : IsName b.name
  assignments : ∀ a ∈ b.assignments, a.Writable

instance (b : Block) : Decidable b.Writable :=
  decidable_of_iff (IsName b.name ∧ ∀ a ∈ b.assignments, a.Writable)
    ⟨fun h => ⟨h.1, h.2⟩, fun h => ⟨h.name, h.assignments⟩⟩

/-- Loose assignments and then blocks, as a document. -/
def documentOf (loose : List Assignment) (blocks : List Block) : Document :=
  loose.map Assignment.item ++
    blocks.flatMap fun b => .header b.name :: b.assignments.map Assignment.item

/-- All full keys with their values, in the order in which they are written. -/
def written (loose : List Assignment) (blocks : List Block) : List (String × String) :=
  loose.map (fun a => (a.key, a.value)) ++
    blocks.flatMap fun b => b.assignments.map fun a => (b.name ++ "." ++ a.key, a.value)

theorem flattenFrom_assignments (inside : Option String) (as : List Assignment) (d : Document) :
    Document.flattenFrom inside (as.map Assignment.item ++ d) =
      as.map (fun a => (Ini.fullKey inside a.key, a.value)) ++ Document.flattenFrom inside d := by
  induction as with
  | nil => rfl
  | cons a as ih => exact congrArg ((Ini.fullKey inside a.key, a.value) :: ·) ih

theorem flattenFrom_blocks (inside : Option String) (blocks : List Block) :
    Document.flattenFrom inside
        (blocks.flatMap fun b => .header b.name :: b.assignments.map Assignment.item) =
      blocks.flatMap fun b => b.assignments.map fun a => (b.name ++ "." ++ a.key, a.value) := by
  induction blocks generalizing inside with
  | nil => rfl
  | cons b blocks ih =>
    rw [List.flatMap_cons, List.flatMap_cons, List.cons_append, Document.flattenFrom,
      flattenFrom_assignments, ih]
    rfl

theorem flatten_documentOf (loose : List Assignment) (blocks : List Block) :
    (documentOf loose blocks).flatten = written loose blocks := by
  rw [Document.flatten, documentOf, flattenFrom_assignments, flattenFrom_blocks]
  rfl

theorem headers_assignments (as : List Assignment) :
    Document.headers (as.map Assignment.item) = [] := by
  induction as with
  | nil => rfl
  | cons a as ih => exact ih

theorem headers_documentOf (loose : List Assignment) (blocks : List Block) :
    (documentOf loose blocks).headers = blocks.map Block.name := by
  have hloose : Document.headers (loose.map Assignment.item) = [] := headers_assignments loose
  rw [documentOf, Document.headers, List.filterMap_append]
  rw [Document.headers] at hloose
  rw [hloose, List.nil_append]
  induction blocks with
  | nil => rfl
  | cons b blocks ih =>
    have hblock := headers_assignments b.assignments
    rw [Document.headers] at hblock
    rw [List.flatMap_cons, List.cons_append, List.filterMap_cons, List.filterMap_append, hblock,
      List.nil_append, ih]
    rfl

/-! ## Look-up -/

/-- What a key is given last is what it has. -/
theorem getElem?_foldl_insert {β : Type} (entries : List (String × β)) (key : String) :
    (entries.foldl (fun m e => m.insert e.1 e.2) (∅ : Std.ExtTreeMap String β))[key]? =
      (entries.reverse.find? (·.1 == key)).map Prod.snd := by
  induction entries using List.reverseRecOn with
  | nil => rfl
  | append_singleton entries e ih =>
    rw [List.foldl_append, List.foldl_cons, List.foldl_nil, Std.ExtTreeMap.getElem?_insert, ih,
      List.reverse_append, List.reverse_singleton, List.singleton_append, List.find?_cons]
    by_cases h : e.1 = key
    · simp [h]
    · simp [h, beq_false_of_ne h]

/-- The value of a key is the one that was written last. -/
theorem getElem?_mapOf (entries : List (String × String)) (key : String) :
    (mapOf entries)[key]? = (entries.reverse.find? (·.1 == key)).map Prod.snd :=
  getElem?_foldl_insert entries key

/-! ## Reading back -/

theorem writable_documentOf {loose : List Assignment} {blocks : List Block}
    (hloose : ∀ a ∈ loose, a.Writable) (hblocks : ∀ b ∈ blocks, b.Writable) :
    ∀ i ∈ documentOf loose blocks, i.Writable := by
  intro i hi
  rcases List.mem_append.mp hi with hi | hi
  · obtain ⟨a, ha, rfl⟩ := List.mem_map.mp hi
    exact ⟨(hloose a ha).key, (hloose a ha).value⟩
  · obtain ⟨b, hb, hi⟩ := List.mem_flatMap.mp hi
    rcases List.mem_cons.mp hi with rfl | hi
    · exact (hblocks b hb).name
    · obtain ⟨a, ha, rfl⟩ := List.mem_map.mp hi
      have hwritable := (hblocks b hb).assignments a ha
      exact ⟨hwritable.key, hwritable.value⟩

/-- Settings are read back from their text, whether its last line is ended or not:
    the sections are the names of the blocks, and the entries are what was written,
    inserted in that order. -/
theorem parse_text {loose : List Assignment} {blocks : List Block}
    (hloose : ∀ a ∈ loose, a.Writable) (hblocks : ∀ b ∈ blocks, b.Writable) {text : String}
    (htext : text = (documentOf loose blocks).text ∨
      text ++ "\n" = (documentOf loose blocks).text) :
    ∃ s, Settings.parse text = .ok s ∧
      (∀ name, name ∈ s.sections ↔ ∃ b ∈ blocks, b.name = name) ∧
      s.entries = (written loose blocks).foldl (fun m e => m.insert e.1 e.2) ∅ ∧
      ∀ key, s.get? key = ((written loose blocks).reverse.find? (·.1 == key)).map Prod.snd := by
  have hread := Document.ofText_text (writable_documentOf hloose hblocks) htext
  refine ⟨ofDocument (documentOf loose blocks), ?_, ?_, ?_, ?_⟩
  · rw [Settings.parse, Settings.ofText, hread]
    rfl
  · intro name
    rw [ofDocument, headers_documentOf, Std.ExtTreeSet.mem_ofList]
    simp
  · rw [ofDocument, flatten_documentOf]
    rfl
  · intro key
    rw [Settings.get?, ofDocument, flatten_documentOf, getElem?_mapOf]

/-- A key that ends in a backslash, a section that comes twice with the same key, an
    empty one without a name, and values that hold what looks like syntax. -/
theorem parse_text_repeated :
    ∃ s, Settings.parse "k\\ = a = 'b' ; \\\"\n[x.y]\nz = #1\n[]\n[x.y]\nz = @A@ \\\\\n" = .ok s ∧
      s.get? "k\\" = some "a = 'b' ; \\\"" ∧ s.get? "x.y.z" = some "@A@ \\\\" ∧ "" ∈ s.sections := by
  have hloose : ∀ a ∈ [Assignment.mk "k\\" "a = 'b' ; \\\""], a.Writable := by decide
  have hblocks : ∀ b ∈ [Block.mk "x.y" [⟨"z", "#1"⟩], ⟨"", []⟩, ⟨"x.y", [⟨"z", "@A@ \\\\"⟩]⟩],
      b.Writable := by decide
  obtain ⟨s, hparse, hsections, -, hget⟩ := parse_text hloose hblocks (.inl rfl)
  exact ⟨s, hparse, (hget _).trans (by decide), (hget _).trans (by decide),
    (hsections "").mpr (by simp)⟩

end BuildServer.Settings
