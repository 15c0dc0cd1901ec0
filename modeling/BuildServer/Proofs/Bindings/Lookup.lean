-- SUMMARY: What names are bound to after entries are added, and how texts expand that are made of parts.
import BuildServer.Proofs.Bindings.Expansion
import BuildServer.Proofs.Settings.Writing

/-!
# Look-up in bindings

Bindings are determined by what their names are bound to. A name that is bound
anew has its new value, whatever it was bound to before; all others keep theirs.
A text that is made of parts expands to what its parts become, as long as no part
leaves a token open.
-/

namespace BuildServer.Bindings

/-! ## Names -/

theorem ext_get? {b b' : Bindings} (h : ∀ name, b.get? name = b'.get? name) : b = b' := by
  obtain ⟨values⟩ := b
  obtain ⟨values'⟩ := b'
  exact congrArg mk (Std.ExtTreeMap.ext_getElem? fun {name} => h name)

@[simp] theorem get?_empty (name : String) : empty.get? name = none :=
  Std.ExtTreeMap.getElem?_empty

theorem get?_insert (b : Bindings) (name value key : String) :
    (b.insert name value).get? key = if name = key then some value else b.get? key := by
  rw [get?, insert, Std.ExtTreeMap.getElem?_insert]
  simp [get?]

theorem values_extend (b : Bindings) (s : Settings) :
    (b.extend s).values = b.values.insertMany s.entries.toList := by
  have hfold (entries : List (String × String)) : ∀ b : Bindings,
      (entries.foldl (fun b e => b.insert e.1 e.2) b).values =
        entries.foldl (fun m e => m.insert e.1 e.2) b.values := by
    induction entries with
    | nil => exact fun _ => rfl
    | cons e entries ih => exact fun b => ih (b.insert e.1 e.2)
  rw [extend, Std.ExtTreeMap.foldl_eq_foldl_toList, hfold,
    Std.ExtTreeMap.insertMany_list_eq_foldl]

/-- What settings say about a name counts more than what it was bound to. -/
theorem get?_extend (b : Bindings) (s : Settings) (name : String) :
    (b.extend s).get? name = (s.get? name).or (b.get? name) := by
  rw [get?, values_extend, Settings.get?]
  cases hname : s.entries[name]? with
  | some value =>
    rw [Option.some_or]
    exact Std.ExtTreeMap.getElem?_insertMany_list_of_mem Std.ReflCmp.compare_self
      Std.ExtTreeMap.distinct_keys_toList (Std.ExtTreeMap.mem_toList_iff_getElem?_eq_some.mpr hname)
  | none =>
    rw [Option.none_or]
    refine Std.ExtTreeMap.getElem?_insertMany_list_of_contains_eq_false ?_
    rw [Std.ExtTreeMap.map_fst_toList_eq_keys, Std.ExtTreeMap.contains_keys,
      Std.ExtTreeMap.contains_eq_isSome_getElem?, hname]
    rfl

/-! ## Parts of texts -/

variable {b : Bindings}

/-- Whatever comes after it, this part of a text expands to that one. -/
def Becomes (b : Bindings) (part expanded : List Char) : Prop :=
  ∀ rest, b.expandFrom none (part ++ rest) = (b.expandFrom none rest).map (expanded ++ ·)

namespace Becomes

theorem literal {part : List Char} (h : '@' ∉ part) : Becomes b part part :=
  expandFrom_append h

theorem token {name : List Char} (h : b.IsKey name) :
    Becomes b ('@' :: name ++ ['@']) (b.value name) := by
  intro rest
  rw [← expandFrom_isKey h]
  simp

theorem append {part expanded part' expanded' : List Char} (h : Becomes b part expanded)
    (h' : Becomes b part' expanded') : Becomes b (part ++ part') (expanded ++ expanded') := by
  intro rest
  rw [List.append_assoc, h, h', map_map]

/-- Parts with spaces between them. -/
theorem intercalate {α : Type} {part expanded : α → List Char} {as : List α}
    (h : ∀ a ∈ as, Becomes b (part a) (expanded a)) :
    Becomes b ([' '].intercalate (as.map part)) ([' '].intercalate (as.map expanded)) := by
  induction as with
  | nil => exact literal List.not_mem_nil
  | cons a as ih =>
    have ha := h a (by simp)
    cases as with
    | nil => simpa using ha
    | cons a' as =>
      rw [List.map_cons, List.map_cons, List.map_cons, List.map_cons,
        List.intercalate_cons_cons, List.intercalate_cons_cons, ← List.map_cons, ← List.map_cons]
      exact (ha.append (literal (by simp))).append (ih fun c hc => h c (by simp [hc]))

theorem expand {s o : String} (h : Becomes b s.toList o.toList) : b.expand s = .ok o := by
  have hall := h []
  rw [List.append_nil] at hall
  rw [expand_eq_ok, hall]
  simp [expandFrom, Except.map]

end Becomes

/-- A text without an `@` is kept as it is. -/
theorem expand_of_no_sign {s : String} (h : '@' ∉ s.toList) : b.expand s = .ok s :=
  (Becomes.literal h).expand

end BuildServer.Bindings
