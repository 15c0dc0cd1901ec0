-- SUMMARY: Where the directories of a build lie: apart from those of other builds, and below the build root unless the profile or the repository leads out of it.
import BuildServer.Control.Command
import BuildServer.Pipeline.Layout
import BuildServer.Proofs.Path
import BuildServer.Registry

/-!
# Places of builds

The three directories of a build lie in a directory of their own, named by the
build identifier. That one lies where the build root, the profile and the
repository lead. As neither name is checked, this need not be below the build
root: an absolute name replaces what comes before it, and a name can contain
steps up. But wherever they lie, the build identifier can be read off their
components, so builds with different identifiers have no directory in common.
-/

namespace BuildServer

/-! ## Build identifiers as names -/

namespace BuildId

theorem not_mem_text (id : BuildId) {x : Char} (h : isDigit x = false) : x ∉ id.text.toList := by
  intro hx
  have hdigit := List.all_eq_true.mp id.all_digits x hx
  rw [h] at hdigit
  exact absurd hdigit (by decide)

theorem text_ne (id : BuildId) {s : String} (h : s.length ≠ length) : id.text ≠ s := by
  rintro rfl
  exact h id.length_text

/-- Joining a build identifier always appends it. -/
theorem components_join_text (a : String) (id : BuildId) :
    Path.components (Path.join a id.text) = Path.components a ++ [id.text] :=
  Path.components_join_name a id.text (id.not_mem_text (by decide)) (id.text_ne (by decide))
    (id.text_ne (by decide))

end BuildId

/-! ## Below a directory -/

namespace Path

theorem Within.below {root p q : String} {more : List String} (h : Within root p) (hne : more ≠ [])
    (hmore : ".." ∉ more) (hq : components q = components p ++ more) : Below root q := by
  obtain ⟨between, hbetween, hp⟩ := h
  refine ⟨between ++ more, by simp [hne], by simp [hbetween, hmore], ?_⟩
  rw [hq, hp, List.append_assoc]

/-- What lies directly below `p` is below `root` if `p` is not outside of it. -/
theorem below_iff_within {root p q name : String} (hname : name ≠ "..")
    (hq : components q = components p ++ [name]) : Below root q ↔ Within root p := by
  constructor
  · rintro ⟨more, hne, hmore, h⟩
    obtain ⟨between, last, rfl⟩ := List.eq_nil_or_concat more |>.resolve_left hne
    rw [hq, List.concat_eq_append, ← List.append_assoc] at h
    have hp := (List.append_inj' h rfl).1
    exact ⟨between, fun hmem => hmore (by simp [hmem]), hp⟩
  · intro h
    exact h.below (by simp) (by simpa using hname.symm) hq

end Path

namespace Layout

open BuildServer.Path (components names segments isAbsolute join Within Below)

/-- The directory that holds all builds of a repository with a profile. -/
def home (root profile repo : String) : String :=
  join (join root profile) repo

section Components

variable (root profile repo : String) (id : BuildId)

theorem components_toplevel :
    components (Layout.of root profile repo id).toplevel =
      components (home root profile repo) ++ [id.text] :=
  id.components_join_text (home root profile repo)

theorem components_sources :
    components (Layout.of root profile repo id).sources =
      components (home root profile repo) ++ [id.text, "repo"] := by
  have hjoin := Path.components_join_name (Layout.of root profile repo id).toplevel "repo"
    (by decide) (by decide) (by decide)
  rwa [components_toplevel, List.append_assoc] at hjoin

theorem components_binaries :
    components (Layout.of root profile repo id).binaries =
      components (home root profile repo) ++ [id.text, "build"] := by
  have hjoin := Path.components_join_name (Layout.of root profile repo id).toplevel "build"
    (by decide) (by decide) (by decide)
  rwa [components_toplevel, List.append_assoc] at hjoin

end Components

/-! ## Distinct builds -/

/-- The directories of a build. -/
def paths (layout : Layout) : List String :=
  [layout.toplevel, layout.sources, layout.binaries]

/-- A name that no build identifier has. -/
def IsPart (name : String) : Prop :=
  ∀ id : BuildId, id.text ≠ name

theorem isPart_sources : IsPart "repo" :=
  fun id => id.text_ne (by decide)

theorem isPart_binaries : IsPart "build" :=
  fun id => id.text_ne (by decide)

/-- A directory of a build ends in the build identifier, or in that and the name of a part. -/
theorem components_of_mem_paths {root profile repo p : String} {id : BuildId}
    (hp : p ∈ (Layout.of root profile repo id).paths) :
    ∃ part : Option String, (∀ name ∈ part, IsPart name) ∧
      components p = components (home root profile repo) ++ [id.text] ++ part.toList := by
  simp only [paths, List.mem_cons, List.not_mem_nil, or_false] at hp
  obtain rfl | rfl | rfl := hp
  · exact ⟨none, nofun, by simp [components_toplevel]⟩
  · refine ⟨some "repo", ?_, by simp [components_sources]⟩
    rintro name ⟨⟩
    exact isPart_sources
  · refine ⟨some "build", ?_, by simp [components_binaries]⟩
    rintro name ⟨⟩
    exact isPart_binaries

/-- Where a directory lies, its build identifier can be read off its components. -/
theorem id_eq_of_append_eq {before before' : List String} {id id' : BuildId}
    {part part' : Option String} (hpart : ∀ name ∈ part, IsPart name)
    (hpart' : ∀ name ∈ part', IsPart name)
    (h : before ++ [id.text] ++ part.toList = before' ++ [id'.text] ++ part'.toList) : id = id' := by
  have htext {x y : BuildId} (h : [x.text] = [y.text]) : x = y := by
    cases x
    cases y
    simpa using h
  -- Only components in the same place from the end can be compared, and a build identifier
  -- meets either the other one or the name of a part.
  cases part with
  | none =>
    cases part' with
    | none =>
      rw [Option.toList_none, List.append_nil, List.append_nil] at h
      exact htext (List.append_inj' h rfl).2
    | some name' =>
      rw [Option.toList_none, List.append_nil] at h
      have hlast := List.singleton_inj.mp (List.append_inj' h rfl).2
      exact absurd hlast (hpart' name' rfl id)
  | some name =>
    cases part' with
    | none =>
      rw [Option.toList_none, List.append_nil] at h
      have hlast := List.singleton_inj.mp (List.append_inj' h rfl).2
      exact absurd hlast.symm (hpart name rfl id')
    | some name' => exact htext (List.append_inj' (List.append_inj' h rfl).1 rfl).2

/-- Builds with different identifiers have no directory in common, wherever they lie. -/
theorem paths_ne {id id' : BuildId} (hid : id ≠ id')
    (root profile repo root' profile' repo' : String) :
    ∀ p ∈ (Layout.of root profile repo id).paths,
      ∀ p' ∈ (Layout.of root' profile' repo' id').paths, p ≠ p' ∧ components p ≠ components p' := by
  intro p hp p' hp'
  have hcomponents : components p ≠ components p' := by
    intro heq
    obtain ⟨part, hpart, hp⟩ := components_of_mem_paths hp
    obtain ⟨part', hpart', hp'⟩ := components_of_mem_paths hp'
    rw [hp, hp'] at heq
    exact hid (id_eq_of_append_eq hpart hpart' heq)
  exact ⟨fun heq => hcomponents (congrArg components heq), hcomponents⟩

/-- A build inside of the build directory of another. -/
theorem paths_ne_nested :
    let id : BuildId := ⟨"0a1b2c3d", by decide, by decide⟩
    let id' : BuildId := ⟨"0a1b2c3e", by decide, by decide⟩
    id ≠ id' ∧ ∀ p ∈ (Layout.of "/out" "release" "r" id).paths,
      ∀ p' ∈ (Layout.of "" "/out/release/r/0a1b2c3d/" "./build" id').paths,
        p ≠ p' ∧ components p ≠ components p' := by
  intro id id'
  have hid : id ≠ id' := by decide
  exact ⟨hid, paths_ne hid "/out" "release" "r" "" "/out/release/r/0a1b2c3d/" "./build"⟩

/-! ## Confinement -/

/-- The profile and the repository do not lead out of the build root. -/
def Confined (root profile repo : String) : Prop :=
  if isAbsolute repo then Within root repo
  else if isAbsolute profile then Within root (join profile repo)
  else ".." ∉ segments profile ∧ ".." ∉ segments repo

instance (root profile repo : String) : Decidable (Confined root profile repo) := by
  delta Confined
  infer_instance

theorem within_home_iff {root : String} (hroot : isAbsolute root) (profile repo : String) :
    Within root (home root profile repo) ↔ Confined root profile repo := by
  have hne := Path.ne_empty_of_isAbsolute hroot
  unfold Confined home
  split
  · next hrepo => rw [Path.join_of_isAbsolute hrepo]
  · next hrepo =>
    split
    · next hprofile => rw [Path.join_of_isAbsolute hprofile]
    · next hprofile =>
      rw [Bool.not_eq_true] at hrepo hprofile
      have hcomponents : components (join (join root profile) repo) =
          components root ++ (names (segments profile) ++ names (segments repo)) := by
        rw [Path.components_join (Path.join_ne_empty hne profile) hrepo,
          Path.components_join hne hprofile, List.append_assoc]
      have hup : Path.isIdle false ".." = false := by decide
      rw [← Path.not_mem_names_iff hup (segments profile),
        ← Path.not_mem_names_iff hup (segments repo)]
      constructor
      · rintro ⟨more, hmore, h⟩
        obtain rfl := List.append_cancel_left (hcomponents.symm.trans h)
        simpa [not_or] using hmore
      · rintro ⟨hprofile', hrepo'⟩
        exact ⟨_, by simp [hprofile', hrepo'], hcomponents⟩

/-- The three directories of a build lie below the build root if and only if its
    profile and its repository do not lead out of it. -/
theorem below_iff_confined {root : String} (hroot : isAbsolute root) (profile repo : String)
    (id : BuildId) :
    let layout := Layout.of root profile repo id
    (Below root layout.toplevel ∧ Below root layout.sources ∧ Below root layout.binaries) ↔
      Confined root profile repo := by
  intro layout
  have hid : id.text ≠ ".." := id.text_ne (by decide)
  rw [← within_home_iff hroot]
  constructor
  · rintro ⟨htoplevel, -⟩
    exact (Path.below_iff_within hid (components_toplevel root profile repo id)).mp htoplevel
  · intro h
    refine ⟨?_, ?_, ?_⟩
    · exact h.below (by simp) (by simpa using hid.symm) (components_toplevel root profile repo id)
    · exact h.below (by simp) (by simpa using hid.symm) (components_sources root profile repo id)
    · exact h.below (by simp) (by simpa using hid.symm) (components_binaries root profile repo id)

-- A profile may be absolute if it leads back to the build root.
example : Confined "/out" "/out/debug" "r" := by decide

example : ¬ Confined "/out" "../other" "r" := by decide

/-- For a build that a line asks for, the words of the line decide whether its
    directories lie below the build root. -/
theorem request_below_iff {line : String} {r : BuildRequest}
    (_hparse : Command.parse line = .build r) {registry : Registry} {repository : Repository}
    (hfound : registry.resolve r.repo = .ok repository) {root : String} (hroot : isAbsolute root)
    (id : BuildId) :
    let job := repository.job r.profile r.branch r.revision
    let layout := Layout.of root job.profile job.repo id
    (Below root layout.toplevel ∧ Below root layout.sources ∧ Below root layout.binaries) ↔
      Confined root r.profile r.repo := by
  intro job layout
  have hrepo : job.repo = r.repo := by
    unfold Registry.resolve at hfound
    split at hfound
    · next hget =>
      obtain rfl := Except.ok.inj hfound
      exact registry.filed hget
    · cases hfound
  rw [← hrepo]
  exact below_iff_confined hroot r.profile job.repo id

/-- A request that stays below the build root. -/
theorem request_below_release :
    let registry := Registry.ofRepositories [⟨"r", "url", "build.ini"⟩]
    let id : BuildId := ⟨"0a1b2c3d", by decide, by decide⟩
    let layout := Layout.of "/out" "release" "r" id
    registry.resolve "r" = .ok ⟨"r", "url", "build.ini"⟩ ∧ Below "/out" layout.toplevel ∧
      Below "/out" layout.sources ∧ Below "/out" layout.binaries := by
  intro registry id layout
  have hparse : Command.parse "BUILD r release main abc" =
      .build ⟨"r", "release", "main", "abc"⟩ := by
    decide
  have hfound : registry.resolve "r" = .ok ⟨"r", "url", "build.ini"⟩ := by
    simp [registry, Registry.resolve, Registry.get?, Registry.ofRepositories, Registry.file]
  have hconfined : Confined "/out" "release" "r" := by decide
  exact ⟨hfound, (request_below_iff hparse hfound rfl id).mpr hconfined⟩

/-- A request whose profile is an absolute path leads out of the build root. -/
theorem request_not_below :
    let registry := Registry.ofRepositories [⟨"r", "url", "build.ini"⟩]
    let id : BuildId := ⟨"0a1b2c3d", by decide, by decide⟩
    let layout := Layout.of "/out" "/etc" "r" id
    Command.parse "BUILD r /etc main abc" = .build ⟨"r", "/etc", "main", "abc"⟩ ∧
      registry.resolve "r" = .ok ⟨"r", "url", "build.ini"⟩ ∧
      layout.toplevel = "/etc/r/0a1b2c3d" ∧ ¬ Below "/out" layout.toplevel := by
  intro registry id layout
  refine ⟨by decide, ?_, by decide, by decide⟩
  simp [registry, Registry.resolve, Registry.get?, Registry.ofRepositories, Registry.file]

end Layout

end BuildServer
