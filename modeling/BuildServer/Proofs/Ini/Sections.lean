-- SUMMARY: Which assignments of a document have the full key of a field of a section.
import BuildServer.Ini.Document

/-!
# Sections of a document

A full key does not tell where the name of its section ends: what is assigned to
`b.url` in section `a`, or to `a.b.url` in no section, has the full key of `url`
in section `a.b`. These are the only ways in which an assignment outside of a
section can meet one inside, as long as there is no dot in the field itself.
-/

namespace BuildServer.Ini

/-! ## Assignments in their sections -/

/-- An assignment, and the section that it stands in. -/
structure Placed where
  inside : Option String
  key : String
  value : String
  deriving DecidableEq

namespace Document

/-- The assignments of a part of a document that begins inside the given section. -/
def placedFrom : Option String → Document → List Placed
  | _, [] => []
  | _, .header name :: items => placedFrom (some name) items
  | inside, .assign key value :: items => ⟨inside, key, value⟩ :: placedFrom inside items

/-- All assignments in file order. -/
def placed (d : Document) : List Placed := placedFrom none d

/-- What is assigned inside the sections of this name, in file order. -/
def within (d : Document) (s : String) : List Placed :=
  d.placed.filter (·.inside == some s)

theorem flattenFrom_eq (inside : Option String) (d : Document) :
    flattenFrom inside d = (placedFrom inside d).map fun a => (fullKey a.inside a.key, a.value) := by
  induction d generalizing inside with
  | nil => rfl
  | cons i items ih =>
    cases i with
    | header name => exact ih (some name)
    | assign key value => exact congrArg (_ :: ·) (ih inside)

theorem mem_headers_of_mem_placedFrom {inside : Option String} {d : Document} {a : Placed}
    {s : String} (h : a ∈ placedFrom inside d) (hs : a.inside = some s) :
    inside = some s ∨ s ∈ headers d := by
  induction d generalizing inside with
  | nil => cases h
  | cons i items ih =>
    cases i with
    | header name =>
      obtain hname | hitems := ih h
      · exact .inr (by simp [headers, Option.some.inj hname])
      · exact .inr (List.mem_cons_of_mem _ hitems)
    | assign key value =>
      obtain rfl | h := List.mem_cons.mp h
      · exact .inl hs
      · exact ih h

theorem mem_headers_of_mem_within {d : Document} {a : Placed} {s : String} (h : a ∈ d.within s) :
    s ∈ d.headers := by
  obtain ⟨hplaced, hs⟩ := List.mem_filter.mp h
  exact (mem_headers_of_mem_placedFrom hplaced (beq_iff_eq.mp hs)).resolve_left nofun

end Document

/-! ## Keys that meet -/

namespace Placed

/-- From outside the section, the assignment has the full key of this field in it:
    the key goes on where a shorter section name, or none, has ended. -/
def Reaches (a : Placed) (s field : String) : Prop :=
  a.inside = none ∧ a.key = s ++ "." ++ field ∨
    ∃ t rest, a.inside = some t ∧ s = t ++ "." ++ rest ∧ a.key = rest ++ "." ++ field

/-- The assignment counts for this field of the section. -/
def Supplies (a : Placed) (s field : String) : Prop :=
  a.inside = some s ∧ a.key = field ∨ a.Reaches s field

end Placed

/-- Where two texts with a dot after them meet, if there is no dot after the second one. -/
theorem append_dot_eq_iff {t k s f : List Char} (hf : '.' ∉ f) :
    t ++ '.' :: k = s ++ '.' :: f ↔
      t = s ∧ k = f ∨ ∃ rest, s = t ++ '.' :: rest ∧ k = rest ++ '.' :: f := by
  constructor
  · intro h
    obtain ⟨more, hs, hk⟩ | ⟨more, ht, hf'⟩ := List.append_eq_append_iff.mp h
    · cases more with
      | nil => exact .inl ⟨by rw [hs, List.append_nil], (List.cons.inj hk).2⟩
      | cons c rest =>
        rw [List.cons_append, List.cons.injEq] at hk
        obtain ⟨rfl, hk⟩ := hk
        exact .inr ⟨rest, hs, hk⟩
    · cases more with
      | nil => exact .inl ⟨by rw [ht, List.append_nil], (List.cons.inj hf').2.symm⟩
      | cons c rest =>
        rw [List.cons_append, List.cons.injEq] at hf'
        obtain ⟨rfl, rfl⟩ := hf'
        exact absurd (List.mem_append_right rest List.mem_cons_self) hf
  · rintro (⟨rfl, rfl⟩ | ⟨rest, rfl, rfl⟩)
    · rfl
    · rw [List.append_assoc, List.cons_append]

theorem dotted_eq_iff {t k s field : String} (hfield : '.' ∉ field.toList) :
    t ++ "." ++ k = s ++ "." ++ field ↔
      t = s ∧ k = field ∨ ∃ rest, s = t ++ "." ++ rest ∧ k = rest ++ "." ++ field := by
  have hdot (a b : String) : (a ++ "." ++ b).toList = a.toList ++ '.' :: b.toList := by
    simp [String.toList_append]
  rw [← String.toList_inj, hdot, hdot, append_dot_eq_iff hfield, String.toList_inj,
    String.toList_inj]
  refine or_congr .rfl ⟨?_, ?_⟩
  · rintro ⟨rest, hs, hk⟩
    refine ⟨String.ofList rest, ?_, ?_⟩
    · rw [← String.toList_inj, hdot, hs, String.toList_ofList]
    · rw [← String.toList_inj, hdot, hk, String.toList_ofList]
  · rintro ⟨rest, rfl, rfl⟩
    exact ⟨rest.toList, hdot .., hdot ..⟩

/-- What counts for a field of a section is what has its full key. -/
theorem fullKey_eq_iff (a : Placed) (s : String) {field : String} (hfield : '.' ∉ field.toList) :
    fullKey a.inside a.key = s ++ "." ++ field ↔ a.Supplies s field := by
  unfold Placed.Supplies Placed.Reaches
  cases a.inside with
  | none => simp [fullKey]
  | some t =>
    rw [fullKey, dotted_eq_iff hfield]
    simp

theorem Placed.Reaches.outside {a : Placed} {s field : String} (h : a.Reaches s field) :
    a.inside ≠ some s := by
  obtain ⟨hnone, -⟩ | ⟨t, rest, ht, hs, -⟩ := h
  · rw [hnone]
    nofun
  · rw [ht]
    intro heq
    obtain rfl := Option.some.inj heq
    have hlength := congrArg String.length hs
    simp only [String.length_append] at hlength
    have hdot : ".".length = 1 := rfl
    omega

theorem Placed.reaches_iff {a : Placed} {s field : String} (hfield : '.' ∉ field.toList) :
    a.Reaches s field ↔ a.inside ≠ some s ∧ fullKey a.inside a.key = s ++ "." ++ field := by
  rw [fullKey_eq_iff a s hfield]
  constructor
  · exact fun h => ⟨h.outside, .inr h⟩
  · rintro ⟨houtside, ⟨hinside, -⟩ | h⟩
    · exact absurd hinside houtside
    · exact h

/-- The last assignment that counts for this field of the section gives this value. -/
def Document.Settles (d : Document) (s field value : String) : Prop :=
  ∃ before a after, d.placed = before ++ a :: after ∧ a.Supplies s field ∧
    (∀ b ∈ after, ¬ b.Supplies s field) ∧ a.value = value

end BuildServer.Ini
