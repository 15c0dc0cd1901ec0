-- SUMMARY: The components of a path, what joining does to them, and what it means to lie below a directory.
import BuildServer.Path

/-!
# Components

The components of a path are what it is compared by: the root, if it is
absolute, and then its segments without the idle ones. Joining appends the
components of a relative path and replaces everything by an absolute one. A path
lies below another if its components only continue those of the other, without a
step up.
-/

namespace BuildServer.Path

/-! ## Components -/

/-- The segments that are not idle. -/
def names (segs : List String) : List String :=
  segs.filter fun seg => !isIdle false seg

/-- The components of a relative path. It keeps a `.` that it begins with. -/
def relative : List String → List String
  | [] => []
  | seg :: segs => if isIdle true seg then names segs else seg :: names segs

def components (p : String) : List String :=
  if isAbsolute p then "/" :: names (segments p) else relative (segments p)

@[simp] theorem names_append (segs more : List String) :
    names (segs ++ more) = names segs ++ names more :=
  List.filter_append ..

@[simp] theorem names_empty : names [""] = [] := rfl

theorem relative_append {segs : List String} (h : segs ≠ []) (more : List String) :
    relative (segs ++ more) = relative segs ++ names more := by
  cases segs with
  | nil => exact absurd rfl h
  | cons seg segs =>
    simp only [List.cons_append, relative, names_append]
    split <;> simp

theorem not_mem_names_iff {seg : String} (h : isIdle false seg = false) (segs : List String) :
    seg ∉ names segs ↔ seg ∉ segs := by
  simp [names, h]

/-! ## Segments -/

theorem segments_ne_nil (p : String) : segments p ≠ [] := by
  simp [segments]

theorem segments_append_slash (a b : String) :
    segments (a ++ "/" ++ b) = segments a ++ segments b := by
  have hlist : (a ++ "/" ++ b).toList = a.toList ++ '/' :: b.toList := by simp
  rw [segments, hlist, List.splitOn_append_cons_self, List.map_append]
  rfl

theorem segments_slash_end (a : String) : segments (a ++ "/") = segments a ++ [""] := by
  have h := segments_append_slash a ""
  rwa [String.append_empty] at h

/-- A text without a slash is a single segment. -/
theorem segments_eq_singleton {p : String} (h : '/' ∉ p.toList) : segments p = [p] := by
  rw [segments, List.splitOn_eq_singleton h, List.map_singleton, String.ofList_toList]

theorem isAbsolute_append {a : String} (ha : a ≠ "") (b : String) :
    isAbsolute (a ++ b) = isAbsolute a := by
  have hne : a.toList ≠ [] := by simpa using ha
  obtain ⟨x, xs, hx⟩ := List.exists_cons_of_ne_nil hne
  simp [isAbsolute, hx]

/-! ## Joining -/

theorem components_append_slash (a b : String) :
    components (a ++ "/" ++ b) = components (a ++ "/") ++ names (segments b) := by
  have hne : a ++ "/" ≠ "" := by simp
  rw [components, components, isAbsolute_append hne, segments_append_slash, segments_slash_end]
  split
  · simp
  · rw [relative_append (segments_ne_nil a), relative_append (segments_ne_nil a)]
    simp

/-- A slash at the end of a path makes no difference. -/
theorem components_slash_end {a : String} (ha : a ≠ "") : components (a ++ "/") = components a := by
  rw [components, components, isAbsolute_append ha, segments_slash_end]
  split
  · simp
  · rw [relative_append (segments_ne_nil a)]
    simp

theorem join_of_isAbsolute {b : String} (hb : isAbsolute b) (a : String) : join a b = b := by
  simp [join, hb]

/-- Joining a relative path to a path that is not empty appends its names. -/
theorem components_join {a b : String} (ha : a ≠ "") (hb : isAbsolute b = false) :
    components (join a b) = components a ++ names (segments b) := by
  have hne : a.toList ≠ [] := by simpa using ha
  rw [join, if_neg (by simp [hb])]
  by_cases hslash : a.toList.getLast? = some '/'
  · -- The slash is already there.
    obtain ⟨cs, hcs⟩ := List.getLast?_eq_some_iff.mp hslash
    have ha' : a = String.ofList cs ++ "/" := by
      rw [← String.toList_inj, hcs]
      simp
    rw [if_pos (by simp [hslash]), ha', components_append_slash]
  · rw [if_neg (by simp [hne, hslash]), components_append_slash, components_slash_end ha]

/-- Joining an ordinary name appends it, to the empty path too. -/
theorem components_join_name (a name : String) (hslash : '/' ∉ name.toList)
    (hempty : name ≠ "") (hdot : name ≠ ".") :
    components (join a name) = components a ++ [name] := by
  have hrelative : isAbsolute name = false := by
    rw [isAbsolute, beq_eq_false_iff_ne]
    exact fun h => hslash (List.mem_of_head? h)
  have hsegments := segments_eq_singleton hslash
  by_cases ha : a = ""
  · subst ha
    have hjoin : join "" name = name := by simp [join, hrelative]
    have hnil : components "" = [] := rfl
    rw [hjoin, hnil, components, if_neg (by simp [hrelative]), hsegments]
    simp [relative, names, isIdle, hempty]
  · rw [components_join ha hrelative, hsegments]
    simp [names, isIdle, hempty, hdot]

theorem join_ne_empty {a : String} (ha : a ≠ "") (b : String) : join a b ≠ "" := by
  rw [join]
  split
  · next hb =>
    intro h
    simp [h, isAbsolute] at hb
  · split <;> simp [ha]

theorem ne_empty_of_isAbsolute {p : String} (h : isAbsolute p) : p ≠ "" := by
  rintro rfl
  simp [isAbsolute] at h

/-! ## Below a directory -/

/-- The components of `p` are those of `root` and more, none of which is a step
    up. -/
def Within (root p : String) : Prop :=
  ∃ more, ".." ∉ more ∧ components p = components root ++ more

/-- As `Within`, but with at least one component more. -/
def Below (root p : String) : Prop :=
  ∃ more, more ≠ [] ∧ ".." ∉ more ∧ components p = components root ++ more

theorem within_iff {root p : String} :
    Within root p ↔ components root <+: components p ∧
      ".." ∉ (components p).drop (components root).length := by
  constructor
  · rintro ⟨more, hmore, h⟩
    rw [h, List.drop_left]
    exact ⟨List.prefix_append _ _, hmore⟩
  · rintro ⟨⟨more, h⟩, hmore⟩
    rw [← h, List.drop_left] at hmore
    exact ⟨more, hmore, h.symm⟩

instance (root p : String) : Decidable (Within root p) :=
  decidable_of_iff _ within_iff.symm

theorem below_iff {root p : String} :
    Below root p ↔ Within root p ∧ components p ≠ components root := by
  constructor
  · rintro ⟨more, hne, hmore, h⟩
    exact ⟨⟨more, hmore, h⟩, by simpa [h] using hne⟩
  · rintro ⟨⟨more, hmore, h⟩, hne⟩
    exact ⟨more, by simpa [h] using hne, hmore, h⟩

instance (root p : String) : Decidable (Below root p) :=
  decidable_of_iff _ below_iff.symm

end BuildServer.Path
