-- SUMMARY: File systems that only grow: what making directories adds, and that nothing else changes.
import BuildServer.Proofs.FileSystem.Directories
import BuildServer.Proofs.FileSystem.Pipes

/-!
# Growth

Making a directory puts one where nothing was, so every path that led somewhere
still leads there, links included. A new directory is at a place to which the
path now leads that it was made for. Making sure of a directory may stop midway,
with some of its ancestors made; it never does anything else.
-/

namespace BuildServer.FileSystem

section Steps

/-- Whatever was there is still there. -/
structure Extends (fs fs' : FileSystem) : Prop where
  cwd : fs'.cwd = fs.cwd
  kept : ∀ {q : Place} {node : Node}, fs.nodes[q]? = some node → fs'.nodes[q]? = some node

variable {fs fs' : FileSystem} {follow slash : Bool} {here place parent : Place} {name : String}
variable {node : Node} {segs : List String} {jump jump' : Place → List String → Except IoError Target}

theorem Extends.retains (h : Extends fs fs') : Retains (fun _ => id) fs fs' where
  cwd := h.cwd
  kept := by
    intro q node hnode
    rw [Node.mapPipe_id]
    obtain rfl | ⟨up, name, rfl⟩ := List.eq_nil_or_concat q
    · exact hnode
    · rw [List.concat_eq_append, node?_concat] at hnode ⊢
      exact h.kept hnode

/-- Every path leads where it led when more is there. -/
theorem Extends.stat (h : Extends fs fs') {path : String}
    (hstat : fs.stat path = .ok (place, node)) : fs'.stat path = .ok (place, node) := by
  have hstat' := h.retains.stat hstat
  rwa [Node.mapPipe_id] at hstat'

/-- A walk that ends at a vacant place ends there in the node that is put there, if that
    is a directory or the walk asks for no directory. It also does so where links at the
    end are followed, since it met none there. -/
theorem steps_of_vacant (hnew : node = .directory ∨ slash = false ∧ ∀ target, node ≠ .link target)
    (hjump : ∀ here segs, jump here segs = .ok (.vacant parent name slash) →
      fs.nodes[parent ++ [name]]? = none ∧
        jump' here segs = .ok (.found (parent ++ [name]) node))
    (hvacant : fs.steps false jump here segs = .ok (.vacant parent name slash)) :
    fs.nodes[parent ++ [name]]? = none ∧
      (fs.set (parent ++ [name]) node).steps true jump' here segs =
        .ok (.found (parent ++ [name]) node) := by
  induction here, segs using trail.induct with
  | case1 => cases hvacant
  | case2 here seg rest hidle ih =>
    rw [steps_idle hidle] at hvacant ⊢
    exact ih hvacant
  | case3 here rest hidle ih =>
    rw [steps_up] at hvacant ⊢
    exact ih hvacant
  | case4 here seg rest hidle hup ih =>
    rw [steps_name hidle hup] at hvacant ⊢
    split at hvacant
    · cases hvacant
    next hlong =>
    rw [if_neg hlong]
    cases hhere : fs.nodes[here ++ [seg]]? with
    | none =>
      rw [hhere] at hvacant
      dsimp only at hvacant
      split at hvacant
      · next hrest =>
        obtain ⟨⟩ := hvacant
        refine ⟨hhere, ?_⟩
        rw [getElem?_set, if_pos rfl]
        obtain rfl | ⟨hslash, hlink⟩ := hnew
        · exact steps_blank hrest
        · obtain rfl : rest = [] := by simpa using hslash
          cases node with
          | directory => rfl
          | link target => exact absurd rfl (hlink target)
          | _ => rfl
      · cases hvacant
    | some found =>
      rw [hhere] at hvacant
      have keeps : fs.nodes[parent ++ [name]]? = none →
          (fs.set (parent ++ [name]) node).nodes[here ++ [seg]]? = some found := by
        intro hplace
        rw [getElem?_set, if_neg, hhere]
        intro heq
        rw [heq, hhere] at hplace
        cases hplace
      cases found with
      | directory =>
        obtain ⟨hplace, hfound⟩ := ih hvacant
        rw [keeps hplace]
        exact ⟨hplace, hfound⟩
      | link target =>
        dsimp only at hvacant
        split at hvacant
        · cases hvacant
        · obtain ⟨hplace, hfound⟩ := hjump _ _ hvacant
          rw [keeps hplace]
          dsimp only
          rw [Bool.not_true, Bool.and_false, if_neg Bool.false_ne_true]
          exact ⟨hplace, hfound⟩
      | _ =>
        dsimp only at hvacant
        split at hvacant <;> cases hvacant

theorem walkFrom_of_vacant {links : Nat}
    (hnew : node = .directory ∨ slash = false ∧ ∀ target, node ≠ .link target)
    (hvacant : fs.walkFrom false links here segs = .ok (.vacant parent name slash)) :
    fs.nodes[parent ++ [name]]? = none ∧
      (fs.set (parent ++ [name]) node).walkFrom true links here segs =
        .ok (.found (parent ++ [name]) node) := by
  induction links generalizing here segs with
  | zero =>
    refine steps_of_vacant hnew ?_ hvacant
    rintro _ _ ⟨⟩
  | succ links ih => exact steps_of_vacant hnew (fun _ _ => ih) hvacant

/-- What is put where a path leads to nothing is found there. -/
theorem stat_of_vacant {path : String}
    (hnew : node = .directory ∨ slash = false ∧ ∀ target, node ≠ .link target)
    (hvacant : fs.walk false path = .ok (.vacant parent name slash)) :
    fs.nodes[parent ++ [name]]? = none ∧
      (fs.set (parent ++ [name]) node).stat path = .ok (parent ++ [name], node) := by
  rw [walk_eq] at hvacant
  cases hfault : fault path with
  | some e =>
    rw [hfault] at hvacant
    cases hvacant
  | none =>
    rw [hfault] at hvacant
    obtain ⟨hplace, hfound⟩ := walkFrom_of_vacant hnew hvacant
    exact ⟨hplace, stat_eq_ok_iff.mpr ⟨hfault, hfound⟩⟩

/-- To put something where nothing was is to add to what is there. -/
theorem extends_set (hplace : fs.nodes[place]? = none) (node : Node) :
    Extends fs (fs.set place node) where
  cwd := rfl
  kept := by
    intro q found hq
    rw [getElem?_set, if_neg, hq]
    rintro rfl
    rw [hplace] at hq
    cases hq

/-- A directory that is made is where its path leads, and nothing was there. -/
theorem mkdir_eq_ok {path : String} (hpath : withoutFinalSlashes path = path)
    (h : fs.mkdir path = .ok fs') :
    ∃ place, fs.nodes[place]? = none ∧ fs' = fs.set place .directory ∧
      fs'.stat path = .ok (place, .directory) := by
  rw [mkdir, hpath] at h
  split at h
  · cases h
  · next parent name slash hvacant =>
    obtain ⟨hplace, hstat⟩ := stat_of_vacant (.inl rfl) hvacant
    obtain rfl := Except.ok.inj h
    exact ⟨_, hplace, rfl, hstat⟩
  · cases h

end Steps

/-! ## Growth -/

/-- Directories have been added where `goal` or lexical ancestors of it now lead,
    and nothing else has changed. -/
structure Grown (goal : String) (fs fs' : FileSystem) : Prop extends Extends fs fs' where
  added : ∀ {q : Place} {node : Node}, fs.nodes[q]? = none → fs'.nodes[q]? = some node →
    node = .directory ∧ ∃ path, Path.AtOrAbove path goal ∧ fs'.stat path = .ok (q, .directory)

namespace Grown

variable {goal path : String} {fs fs' fs'' : FileSystem}

theorem refl (fs : FileSystem) : Grown goal fs fs :=
  ⟨⟨rfl, id⟩, fun hnone hsome => by rw [hnone] at hsome; cases hsome⟩

theorem trans (h : Grown goal fs fs') (h' : Grown goal fs' fs'') : Grown goal fs fs'' where
  cwd := h'.cwd.trans h.cwd
  kept hq := h'.kept (h.kept hq)
  added := by
    intro q node hnone hsome
    cases hmiddle : fs'.nodes[q]? with
    | none => exact h'.added hmiddle hsome
    | some middle =>
      obtain ⟨rfl, path, hpath, hstat⟩ := h.added hnone hmiddle
      rw [h'.kept hmiddle] at hsome
      obtain rfl := Option.some.inj hsome
      exact ⟨rfl, path, hpath, h'.stat hstat⟩

theorem mkdir (hpath : Path.AtOrAbove path goal) (htidy : withoutFinalSlashes path = path)
    (h : fs.mkdir path = .ok fs') : Grown goal fs fs' := by
  obtain ⟨place, hplace, rfl, hstat⟩ := mkdir_eq_ok htidy h
  refine ⟨extends_set hplace .directory, ?_⟩
  intro q node hnone hsome
  rw [getElem?_set] at hsome
  split at hsome
  · next heq =>
    obtain rfl := heq
    exact ⟨(Option.some.inj hsome).symm, path, hpath, hstat⟩
  · rw [hnone] at hsome
    cases hsome

theorem attempt (hpath : Path.AtOrAbove path goal) (htidy : withoutFinalSlashes path = path) :
    Grown goal fs (fs.attempt path).2 := by
  rw [FileSystem.attempt]
  split
  · next hmkdir => exact .mkdir hpath htidy hmkdir
  · exact .refl fs

theorem mkdirWith {paths : List String}
    (hpaths : ∀ path ∈ paths, Path.AtOrAbove path goal ∧ withoutFinalSlashes path = path) :
    Grown goal fs (FileSystem.mkdirWith paths fs).2 := by
  induction paths with
  | nil => exact .refl fs
  | cons path ancestors ih =>
    obtain ⟨⟨habove, htidy⟩, hancestors⟩ := List.forall_mem_cons.mp hpaths
    by_cases hempty : path = ""
    · rw [FileSystem.mkdirWith, if_pos (by simpa using hempty)]
      exact .refl fs
    by_cases hmkdir : fs.mkdir path = .error .notFound
    · rw [mkdirWith_missing hempty hmkdir]
      have hgrown := ih hancestors
      generalize FileSystem.mkdirWith ancestors fs = made at hgrown
      obtain ⟨_ | _, fs'⟩ := made
      · exact hgrown
      · exact hgrown.trans (.attempt habove htidy)
    · rw [mkdirWith_found hempty hmkdir]
      exact .attempt habove htidy

end Grown

theorem isDirectory_attempt {path : String} {fs : FileSystem} (htidy : withoutFinalSlashes path = path)
    (h : (fs.attempt path).1 = .ok ()) : (fs.attempt path).2.isDirectory path := by
  rw [attempt] at h ⊢
  split at h
  · next fs' hmkdir =>
    obtain ⟨place, -, -, hstat⟩ := mkdir_eq_ok htidy hmkdir
    rw [isDirectory, hstat]
    rfl
  · next e hmkdir =>
    dsimp only at h ⊢
    split at h
    · next hdirectory => exact hdirectory
    · cases h

theorem isDirectory_mkdirWith {path : String} {ancestors : List String} {fs : FileSystem}
    (hempty : path ≠ "") (htidy : withoutFinalSlashes path = path)
    (h : (mkdirWith (path :: ancestors) fs).1 = .ok ()) :
    (mkdirWith (path :: ancestors) fs).2.isDirectory path := by
  by_cases hmkdir : fs.mkdir path = .error .notFound
  · rw [mkdirWith_missing hempty hmkdir] at h ⊢
    generalize mkdirWith ancestors fs = made at h
    obtain ⟨_ | _, fs'⟩ := made
    · cases h
    · exact isDirectory_attempt htidy h
  · rw [mkdirWith_found hempty hmkdir] at h ⊢
    exact isDirectory_attempt htidy h

section EnsureDir

variable {path : String} {fs : FileSystem}

theorem withoutFinalSlashes_of_mem {p : String} (hopen : Path.isOpen path = false)
    (hp : p ∈ path :: Path.ancestors path) :
    Path.AtOrAbove p path ∧ withoutFinalSlashes p = p := by
  rcases List.mem_cons.mp hp with rfl | hp
  · exact ⟨.refl p, withoutFinalSlashes_eq hopen⟩
  · refine ⟨Path.atOrAbove_of_mem_ancestors hp, ?_⟩
    rcases Path.cut_of_mem_ancestors hp with hcut | rfl
    · exact withoutFinalSlashes_eq hcut.isOpen_eq
    · split <;> decide

/-- Whether it succeeds or not, making sure of a directory only adds directories on
    the way to it. -/
theorem grown_ensureDir (hopen : Path.isOpen path = false) (fs : FileSystem) :
    Grown path fs (ensureDir path fs).2 := by
  rw [ensureDir]
  split
  · exact .refl fs
  · exact .mkdirWith fun p hp => withoutFinalSlashes_of_mem hopen hp

theorem isDirectory_ensureDir (hempty : path ≠ "") (hopen : Path.isOpen path = false) {created : Bool}
    (h : (ensureDir path fs).1 = .ok created) : (ensureDir path fs).2.isDirectory path := by
  rw [ensureDir] at h ⊢
  split
  · next hdirectory => exact hdirectory
  · next hdirectory =>
    rw [if_neg hdirectory] at h
    apply isDirectory_mkdirWith hempty (withoutFinalSlashes_eq hopen)
    dsimp only at h
    generalize mkdirWith (path :: Path.ancestors path) fs = made at h
    obtain ⟨_ | _, fs'⟩ := made
    · cases h
    · rfl

theorem ensureDir_of_isDirectory (h : fs.isDirectory path) :
    ensureDir path fs = (.ok false, fs) := by
  rw [ensureDir, if_pos h]

end EnsureDir

end BuildServer.FileSystem
