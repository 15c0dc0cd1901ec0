-- SUMMARY: Programs that fetch sources into a directory and keep to it.
import BuildServer.Proofs.Pipeline.Confinement

/-!
# Fetching sources

Programs of which only the one that fetches sources does something. If what it
does stays in the directory of a build and depends on nothing else, then all
programs of that build are local to this directory.
-/

namespace BuildServer

/-! ## Changes in a directory -/

namespace FileSystem

/-- Put a node into a directory, unless there is something of that name. -/
def put (dir : Place) (name : String) (node : Node) (fs : FileSystem) : FileSystem :=
  if fs.node? dir = some .directory ∧ fs.node? (dir ++ [name]) = none then
    fs.set (dir ++ [name]) node
  else fs

/-- Remove a directory with everything in it. -/
def remove (dir : Place) (fs : FileSystem) : FileSystem :=
  { fs with nodes := fs.nodes.filter fun q _ => !dir.isPrefixOf q }

theorem getElem?_remove (dir : Place) (fs : FileSystem) (q : Place) :
    (fs.remove dir).nodes[q]? = if dir <+: q then none else fs.nodes[q]? := by
  rw [remove, Std.ExtTreeMap.getElem?_filter']
  split
  · next h => cases fs.nodes[q]? <;> simp [List.isPrefixOf_iff_prefix.mpr h]
  · next h =>
    have hfalse : dir.isPrefixOf q = false := by
      rwa [← Bool.not_eq_true, List.isPrefixOf_iff_prefix]
    cases fs.nodes[q]? <;> simp [hfalse]

theorem Plain.empty : FileSystem.empty.Plain where
  in_directory := by
    intro q name node hnode
    rw [node?_concat] at hnode
    simp [FileSystem.empty] at hnode
  no_link := by simp [FileSystem.empty]

theorem Plain.put {fs : FileSystem} (h : fs.Plain) {node : Node}
    (hnode : ∀ target, node ≠ .link target) (dir : Place) (name : String) :
    (fs.put dir name node).Plain := by
  rw [FileSystem.put]
  split
  · next hdir => exact h.set hdir.1 hnode (.inr hdir.2)
  · exact h

theorem Plain.remove {fs : FileSystem} (h : fs.Plain) (dir : Place) : (fs.remove dir).Plain where
  in_directory := by
    intro q name node hnode
    rw [node?_concat, getElem?_remove] at hnode
    split at hnode
    · cases hnode
    · next hkept =>
      rw [← node?_concat] at hnode
      have hq := h.in_directory hnode
      have hkept' : ¬ dir <+: q := fun hdir => hkept (hdir.trans (List.prefix_append ..))
      rw [node?, getElem?_remove, if_neg hkept']
      exact hq
  no_link := by
    intro q target
    rw [getElem?_remove]
    split
    · simp
    · exact h.no_link q target

/-- A change of what is at or under `own` that depends on nothing else. -/
structure Inward (own : Place) (f : FileSystem → FileSystem) : Prop where
  cwd : ∀ fs, (f fs).cwd = fs.cwd
  outside : ∀ fs (q : Place), ¬ own <+: q → (f fs).nodes[q]? = fs.nodes[q]?
  inside : ∀ {fs fs' : FileSystem}, (∀ q : Place, own <+: q → fs.nodes[q]? = fs'.nodes[q]?) →
    ∀ q : Place, own <+: q → (f fs).nodes[q]? = (f fs').nodes[q]?

namespace Inward

variable {own : Place}

theorem id : Inward own fun fs => fs where
  cwd _ := rfl
  outside _ _ _ := rfl
  inside h := h

theorem comp {f g : FileSystem → FileSystem} (hf : Inward own f) (hg : Inward own g) :
    Inward own fun fs => g (f fs) where
  cwd fs := (hg.cwd _).trans (hf.cwd fs)
  outside fs q hq := (hg.outside _ q hq).trans (hf.outside fs q hq)
  inside h := hg.inside (hf.inside h)

theorem put {dir : Place} (hdir : own <+: dir) (name : String) (node : Node) :
    Inward own (put dir name node) where
  cwd fs := by
    rw [FileSystem.put]
    split <;> rfl
  outside fs q hq := by
    rw [FileSystem.put]
    split
    · rw [getElem?_set, if_neg]
      rintro rfl
      exact hq (hdir.trans (List.prefix_append ..))
    · rfl
  inside {fs fs'} h q hq := by
    have hplace : own <+: dir ++ [name] := hdir.trans (List.prefix_append ..)
    have hnode : ∀ q : Place, own <+: q → fs.node? q = fs'.node? q := by
      intro q hq
      rw [node?, node?, h q hq]
    rw [FileSystem.put, FileSystem.put, hnode dir hdir, hnode _ hplace]
    split
    · rw [getElem?_set, getElem?_set, h q hq]
    · exact h q hq

theorem remove {dir : Place} (hdir : own <+: dir) : Inward own (remove dir) where
  cwd _ := rfl
  outside fs q hq := by
    rw [getElem?_remove, if_neg fun h => hq (hdir.trans h)]
  inside h q hq := by
    rw [getElem?_remove, getElem?_remove, h q hq]

end Inward

end FileSystem

/-! ## Programs -/

namespace Build

open FileSystem (Inward)
open BuildServer.Path (Ordinary)

/-- All programs are found in one directory. -/
def locateIn (dir : String) (_ : FileSystem) (name : String) : Option String :=
  some (Path.join dir name)

/-- Programs that succeed, of which the one that fetches sources changes the file system
    in the given way for its target. -/
def fetching (change : String → FileSystem → FileSystem) (i : Invocation) (fs : FileSystem) :
    RunOutcome × FileSystem :=
  (.exited (.code 0), if i.cwd = none then change (i.args.getLastD "") fs else fs)

section

variable {change : String → FileSystem → FileSystem} {job : Job} {layout : Layout} {own : Place}
variable {i : Invocation}

theorem exists_fetching (hi : Issues job layout i) :
    ∃ f, (f = change layout.sources ∨ f = fun fs => fs) ∧
      ∀ fs, fetching change i fs = (.exited (.code 0), f fs) := by
  cases hi with
  | clone git => exact ⟨_, .inl rfl, fun _ => rfl⟩
  | checkOut git => exact ⟨_, .inr rfl, fun _ => rfl⟩
  | configure program args => exact ⟨_, .inr rfl, fun _ => rfl⟩

theorem local_fetching (h : Inward own (change layout.sources)) (hi : Issues job layout i) :
    Local (fetching change) own i := by
  obtain ⟨f, hf, hrun⟩ : ∃ f, _ ∧ ∀ fs, fetching change i fs = _ := exists_fetching hi
  have hinward : Inward own f := by
    obtain rfl | rfl := hf
    · exact h
    · exact .id
  refine ⟨fun _ => ?_, fun _ q hq => ?_, fun _ _ _ hsame => ?_⟩
  · rw [hrun]
    exact hinward.cwd _
  · rw [hrun]
    exact hinward.outside _ q hq
  · rw [hrun, hrun]
    exact ⟨rfl, hinward.inside hsame⟩

variable {env : BuildEnvironment} {base : Place} {id : BuildId}

theorem separate_fetching (hrun : env.run = fetching change) (hprofile : Ordinary job.profile)
    (hrepo : Ordinary job.repo) (hrelative : Path.isAbsolute job.config = false)
    (hdown : ".." ∉ Path.segments job.config)
    (h : Inward (ownPlace base job id)
      (change (Layout.of env.buildRoot job.profile job.repo id).sources)) :
    Separate env base job id where
  profile := hprofile
  repo := hrepo
  config_relative := hrelative
  config_down := hdown
  runs i hi := by
    rw [hrun]
    exact local_fetching h hi

theorem linkless_fetching (hrun : env.run = fetching change)
    (h : ∀ fs : FileSystem, fs.Plain →
      (change (Layout.of env.buildRoot job.profile job.repo id).sources fs).Plain) :
    Linkless env base job id := by
  intro i hi fs hfs
  obtain ⟨f, hf, heq⟩ : ∃ f, _ ∧ ∀ fs, fetching change i fs = _ := exists_fetching hi
  rw [hrun, heq]
  obtain rfl | rfl := hf
  · exact h fs hfs.plain
  · exact hfs.plain

end

end Build

end BuildServer
