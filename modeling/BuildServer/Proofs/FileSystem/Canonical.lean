-- SUMMARY: Canonical places: directories on the whole way, which their own paths lead to.
import BuildServer.Proofs.Ancestors
import BuildServer.Proofs.FileSystem.Pipes

/-!
# Canonical places

A place is canonical if only directories are on the way to it and none of its
names means anything else in a path. A walk that begins at a canonical place and
ends in a directory ends at a canonical place, whatever links it meets, and the
path of a canonical place leads nowhere but there.
-/

namespace BuildServer.FileSystem

structure Canonical (fs : FileSystem) (place : Place) : Prop where
  ordinary : ∀ name ∈ place, Path.Ordinary name
  directory : ∀ q, q <+: place → fs.node? q = some .directory

namespace Canonical

variable {f : Place → Pipe → Pipe} {fs fs' : FileSystem} {follow : Bool} {here place : Place}
variable {segs : List String} {jump : Place → List String → Except IoError Target}

theorem root (fs : FileSystem) : fs.Canonical [] where
  ordinary := by simp
  directory := by
    intro q hq
    rw [List.prefix_nil.mp hq]
    rfl

theorem up (h : fs.Canonical here) : fs.Canonical here.dropLast where
  ordinary name hname := h.ordinary name ((List.dropLast_prefix here).subset hname)
  directory q hq := h.directory q (hq.trans (List.dropLast_prefix here))

theorem down (h : fs.Canonical here) {name : String} (hname : Path.Ordinary name)
    (hnode : fs.node? (here ++ [name]) = some .directory) : fs.Canonical (here ++ [name]) where
  ordinary := by
    intro other hother
    rcases List.mem_append.mp hother with hother | hother
    · exact h.ordinary other hother
    · rwa [List.mem_singleton.mp hother]
  directory := by
    intro q hq
    rcases List.prefix_concat_iff.mp hq with rfl | hq
    · exact hnode
    · exact h.directory q hq

/-- Directories stay where they are when pipes are used. -/
theorem retained (h : fs.Canonical place) (hfs : Retains f fs fs') : fs'.Canonical place where
  ordinary := h.ordinary
  directory q hq := hfs.kept (h.directory q hq)

/-! ## Where walks end -/

theorem of_steps (h : fs.Canonical here) (hsegs : ∀ seg ∈ segs, '/' ∉ seg.toList)
    (hjump : ∀ here segs, fs.Canonical here → (∀ seg ∈ segs, '/' ∉ seg.toList) →
      jump here segs = .ok (.found place .directory) → fs.Canonical place)
    (hfound : fs.steps follow jump here segs = .ok (.found place .directory)) :
    fs.Canonical place := by
  induction here, segs using trail.induct with
  | case1 =>
    obtain ⟨⟩ := hfound
    exact h
  | case2 here seg rest hidle ih =>
    rw [steps_idle hidle] at hfound
    exact ih h (List.forall_mem_cons.mp hsegs).2 hfound
  | case3 here rest hidle ih =>
    rw [steps_up] at hfound
    exact ih h.up (List.forall_mem_cons.mp hsegs).2 hfound
  | case4 here seg rest hidle hup ih =>
    obtain ⟨hslash, hrest⟩ := List.forall_mem_cons.mp hsegs
    obtain ⟨-, ⟨hnode, hfound⟩ | ⟨target, -, -, hfound⟩ | ⟨-, hne, -⟩⟩ :=
      steps_name_found hidle hup hfound
    · have hordinary : Path.Ordinary seg :=
        ⟨fun hempty => hidle (.inl hempty), fun hdot => hidle (.inr hdot), hup, hslash⟩
      exact ih (h.down hordinary hnode) hrest hfound
    · refine hjump _ _ ?_ ?_ hfound
      · split
        · exact root fs
        · exact h
      · intro name hname
        rcases List.mem_append.mp hname with hname | hname
        · exact Path.not_mem_of_mem_segments hname
        · exact hrest name hname
    · exact absurd rfl hne

theorem of_walkFrom (h : fs.Canonical here) (hsegs : ∀ seg ∈ segs, '/' ∉ seg.toList) {links : Nat}
    (hfound : fs.walkFrom follow links here segs = .ok (.found place .directory)) :
    fs.Canonical place := by
  induction links generalizing here segs with
  | zero =>
    refine of_steps h hsegs ?_ hfound
    rintro _ _ - - ⟨⟩
  | succ links ih => exact of_steps h hsegs (fun _ _ => ih) hfound

theorem of_stat {path : String} (horigin : fs.Canonical (fs.origin path))
    (h : fs.stat path = .ok (place, .directory)) : fs.Canonical place := by
  obtain ⟨-, hfound⟩ := stat_eq_ok_iff.mp h
  exact of_walkFrom horigin (fun _ => Path.not_mem_of_mem_segments) hfound

/-! ## The path of a canonical place -/

/-- Names that are not too long lead from a directory on the way to the place. -/
theorem steps (h : fs.Canonical (here ++ segs)) :
    fs.steps follow jump here segs = .ok (.found (here ++ segs) .directory) ∨
      fs.steps follow jump here segs = .error .nameTooLong := by
  induction segs generalizing here with
  | nil =>
    rw [List.append_nil]
    exact .inl rfl
  | cons seg segs ih =>
    have hordinary : Path.Ordinary seg := h.ordinary seg (by simp)
    have hnode : fs.node? (here ++ [seg]) = some .directory := by
      refine h.directory _ ⟨segs, ?_⟩
      rw [List.append_assoc, List.singleton_append]
    rw [steps_name (by simp [hordinary.ne_empty, hordinary.ne_dot]) hordinary.ne_up, ← node?_concat,
      hnode]
    split
    · exact .inr rfl
    · have happend : here ++ seg :: segs = here ++ [seg] ++ segs := by simp
      rw [happend] at h ⊢
      exact ih h

/-- The path of a place has the names of the place, behind the slash that it begins with. -/
theorem steps_path (hplace : ∀ name ∈ place, '/' ∉ name.toList) :
    fs.steps follow jump [] (Path.segments place.path) = fs.steps follow jump [] place := by
  have hsegments : Path.segments place.path = "" :: Path.segments (Path.ofSegments place) :=
    Path.segments_append_slash "" _
  rw [hsegments, steps_idle (.inl rfl)]
  cases place with
  | nil => exact steps_idle (.inl rfl) []
  | cons name place => rw [Path.segments_ofSegments (by simp) hplace]

/-- The path of a canonical place leads there, if it can be followed at all. -/
theorem stat_path (h : fs.Canonical place) {found : Place × Node}
    (hfound : fs.stat place.path = .ok found) : found = (place, .directory) := by
  have hnames : ∀ name ∈ place, '/' ∉ name.toList := fun name hname => (h.ordinary name hname).no_slash
  have horigin : fs.origin place.path = [] := by
    rw [origin, Place.path, if_pos (by simp [Path.isAbsolute])]
  obtain ⟨last, node⟩ := found
  obtain ⟨-, hwalk⟩ := stat_eq_ok_iff.mp hfound
  rw [horigin, linkLimit, FileSystem.walkFrom, steps_path hnames] at hwalk
  have hroot : fs.Canonical ([] ++ place) := h
  rcases hroot.steps with hplace | hlong
  · rw [hplace] at hwalk
    obtain ⟨⟩ := hwalk
    rfl
  · rw [hlong] at hwalk
    cases hwalk

end Canonical

theorem canonicalize_eq {fs : FileSystem} {path : String} {place : Place} {node : Node}
    (h : fs.stat path = .ok (place, node)) :
    fs.canonicalize path = (fs.stat place.path).map fun _ => place.path := by
  rw [canonicalize, h]
  change (do let _ ← fs.stat place.path; return place.path) = _
  cases fs.stat place.path <;> rfl

end BuildServer.FileSystem
