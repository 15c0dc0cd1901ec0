-- SUMMARY: Apart from what its programs do, a build only adds directories on the way to its own.
import BuildServer.Proofs.FileSystem.Growth
import BuildServer.Proofs.Pipeline.Confinement
import BuildServer.Proofs.Pipeline.Gates

/-!
# What a build leaves behind

A build changes the file system in two ways only: it makes sure of directories
and it runs programs. The record of both, in order, explains how the file system
came to be what the build leaves behind, however the build ends. No directory but
the toplevel one is made sure of before the sources have been checked out.
-/

namespace BuildServer.Build

open BuildServer.FileSystem (Grown)

/-! ## Deeds -/

/-- What a build does to the file system. -/
inductive Deed where
  /-- Make sure of a directory, with success or without. -/
  | provided (path : String)
  | ran (i : Invocation) (outcome : RunOutcome)

def Deed.call? : Deed → Option Invocation
  | .provided _ => none
  | .ran i _ => some i

/-- The second file system comes about from the first by these deeds and nothing else. -/
inductive Course (env : BuildEnvironment) : List Deed → FileSystem → FileSystem → Prop
  | done (fs : FileSystem) : Course env [] fs fs
  | provided {path : String} {deeds : List Deed} {fs fs' fs'' : FileSystem} :
      Grown path fs fs' → Course env deeds fs' fs'' → Course env (.provided path :: deeds) fs fs''
  | ran {i : Invocation} {deeds : List Deed} {fs fs' : FileSystem} :
      Course env deeds (env.run i fs).2 fs' → Course env (.ran i (env.run i fs).1 :: deeds) fs fs'

theorem Course.append {env : BuildEnvironment} {deeds more : List Deed} {fs fs' fs'' : FileSystem}
    (h : Course env deeds fs fs') (h' : Course env more fs' fs'') :
    Course env (deeds ++ more) fs fs'' := by
  induction h with
  | done fs => exact h'
  | provided hgrown _ ih => exact .provided hgrown (ih h')
  | ran _ ih => exact .ran (ih h')

/-- What steps do, seen as their deeds. -/
def Record.deeds (env : BuildEnvironment) : Record Deed where
  holds deeds s s' := Course env deeds s.fs s'.fs ∧ s'.calls = s.calls ++ deeds.filterMap Deed.call?
  reports s _ := ⟨.done s.fs, (List.append_nil s.calls).symm⟩
  append h h' := by
    refine ⟨h.1.append h'.1, ?_⟩
    rw [h'.2, h.2, List.filterMap_append, List.append_assoc]

def Succeeded (outcome : RunOutcome) : Prop :=
  ∃ status, outcome = .exited status ∧ status.isSuccess

section

variable {env : BuildEnvironment} {job : Job} {id : BuildId}

theorem does_provision (stage : Stage) {path : String} (hopen : Path.isOpen path = false) :
    Does (.deeds env) (provision stage path) fun deeds _ => deeds = [.provided path] := by
  intro s
  rw [on_provision]
  have hgrown := FileSystem.grown_ensureDir hopen s.fs
  generalize FileSystem.ensureDir path s.fs = made at hgrown
  obtain ⟨_ | _, fs⟩ := made <;>
    exact ⟨[.provided path], ⟨.provided hgrown (.done fs), (List.append_nil s.calls).symm⟩, rfl⟩

/-- A program that must succeed is run, and has succeeded if the build goes on. -/
theorem does_runChecked (stage : Stage) (i : Invocation) :
    Does (.deeds env) (runChecked env stage i) fun deeds r =>
      ∃ outcome, deeds = [.ran i outcome] ∧ (r = .ok () → Succeeded outcome) := by
  have hinvoke : Does (.deeds env) (invoke env i) fun deeds r =>
      ∃ outcome, deeds = [.ran i outcome] ∧ r = .ok outcome :=
    fun s => ⟨[.ran i (env.run i s.fs).1], ⟨.ran (.done _), rfl⟩, _, rfl, rfl⟩
  refine hinvoke.bind ?_ ?_
  · rintro _ outcome ⟨_, rfl, ⟨⟩⟩
    cases outcome with
    | exited status =>
      dsimp only
      split
      · next hsuccess => exact .pure ⟨_, rfl, fun _ => ⟨status, rfl, hsuccess⟩⟩
      · exact .fail ⟨_, rfl, nofun⟩
    | notStarted cause => exact .fail ⟨_, rfl, nofun⟩
    | crashed => exact .halt ⟨_, rfl, nofun⟩
  · rintro _ _ ⟨_, -, ⟨⟩⟩

end

/-! ## Courses of builds -/

/-- The deeds of a build are the first ones of these five. The sources are cloned
    successfully before they are checked out, and checked out successfully before
    anything else is done. -/
def Orderly (job : Job) (layout : Layout) (deeds : List Deed) : Prop :=
  ∃ git program args cloned checkedOut configured,
    deeds <+: [.provided layout.toplevel, .ran (cloneCall git job layout) cloned,
      .ran (checkoutCall git job layout) checkedOut, .provided layout.binaries,
      .ran (configureCall program args layout) configured] ∧
    (2 < deeds.length → Succeeded cloned) ∧ (3 < deeds.length → Succeeded checkedOut)

section

variable {env : BuildEnvironment} {job : Job} {id : BuildId}

theorem does_checkout (git : String) (layout : Layout) :
    Does (.deeds env) (checkout env git job layout) fun deeds r =>
      ∃ cloned checkedOut,
        deeds <+: [.ran (cloneCall git job layout) cloned,
          .ran (checkoutCall git job layout) checkedOut] ∧
        (1 < deeds.length → Succeeded cloned) ∧
        ∀ u, r = .ok u → deeds.length = 2 ∧ Succeeded checkedOut := by
  unfold checkout
  split
  · exact .fail ⟨.crashed, .crashed, List.nil_prefix, by simp, nofun⟩
  · refine (does_runChecked _ _).bind ?_ ?_
    · rintro _ ⟨⟩ ⟨cloned, rfl, hcloned⟩
      refine (does_runChecked _ _).mono ?_
      rintro _ r ⟨checkedOut, rfl, hcheckedOut⟩
      refine ⟨cloned, checkedOut, List.prefix_rfl, fun _ => hcloned rfl, ?_⟩
      rintro ⟨⟩ rfl
      exact ⟨rfl, hcheckedOut rfl⟩
    · rintro _ h ⟨cloned, rfl, -⟩
      exact ⟨cloned, .crashed, List.prefix_append .., by simp, nofun⟩

theorem does_configure (config : Settings) (b : Bindings) (layout : Layout) :
    Does (.deeds env) (configure env config b job layout) fun deeds _ =>
      ∃ program args configured, deeds <+: [.ran (configureCall program args layout) configured] := by
  have idle : ∃ program args configured,
      [] <+: [Deed.ran (configureCall program args layout) configured] :=
    ⟨"", [], .crashed, List.nil_prefix⟩
  unfold configure
  cases configureWords config b job.profile with
  | error cause => exact .fail idle
  | ok words =>
    rw [check_ok, pure_bind]
    match words with
    | none => exact .report_bind _ (.pure idle)
    | some [] => exact .fail idle
    | some (tool :: args) =>
      refine .inspect_bind _ fun found => ?_
      cases found with
      | none => exact .fail idle
      | some program =>
        refine (does_runChecked _ _).bind ?_ ?_
        · rintro _ ⟨⟩ ⟨configured, rfl, -⟩
          exact .pure ⟨program, args, configured, List.prefix_rfl⟩
        · rintro _ h ⟨configured, rfl, -⟩
          exact ⟨program, args, configured, List.prefix_rfl⟩

theorem isOpen_toplevel (buildRoot profile repo : String) (id : BuildId) :
    Path.isOpen (Layout.of buildRoot profile repo id).toplevel = false :=
  Path.isOpen_join _ (ordinary_text id)

theorem isOpen_binaries (buildRoot profile repo : String) (id : BuildId) :
    Path.isOpen (Layout.of buildRoot profile repo id).binaries = false :=
  Path.isOpen_join _ ordinary_binaries

/-- What a build does once the sources have been checked out. -/
theorem does_later (b : Bindings) (report : Bool → BuildReport) :
    let layout := Layout.of env.buildRoot job.profile job.repo id
    Does (.deeds env) (do
      provision .provisionBinaryDir layout.binaries
      let config ← loadConfig job layout
      let configured ← configure env config b job layout
      return report configured) fun deeds _ =>
        ∃ program args configured, deeds <+: [.provided layout.binaries,
          .ran (configureCall program args layout) configured] := by
  intro layout
  refine (does_provision _ (isOpen_binaries ..)).bind ?_ ?_
  · rintro _ ⟨⟩ rfl
    refine (does_loadConfig layout).bind ?_ ?_
    · rintro _ config ⟨rfl, -⟩
      refine (does_configure config b layout).bind ?_ ?_
      · rintro deeds configured ⟨program, args, outcome, h⟩
        refine .pure ⟨program, args, outcome, ?_⟩
        rw [List.append_nil]
        exact (List.prefix_append_right_inj [_]).mpr h
      · rintro deeds _ ⟨program, args, outcome, h⟩
        exact ⟨program, args, outcome, (List.prefix_append_right_inj [_]).mpr h⟩
    · rintro _ _ ⟨rfl, -⟩
      exact ⟨"", [], .crashed, List.prefix_append ..⟩
  · rintro _ _ rfl
    exact ⟨"", [], .crashed, List.prefix_append ..⟩

theorem does_stages (git : String) :
    Does (.deeds env) (stages env git job id) fun deeds _ =>
      Orderly job (Layout.of env.buildRoot job.profile job.repo id) deeds := by
  unfold stages
  extract_lets layout
  have provided : Orderly job layout [.provided layout.toplevel] :=
    ⟨git, "", [], .crashed, .crashed, .crashed, List.prefix_append .., by simp, by simp⟩
  refine (does_provision _ (isOpen_toplevel ..)).bind ?_ ?_
  · rintro _ ⟨⟩ rfl
    refine does_loadBindings.bind ?_ ?_
    · rintro _ loaded ⟨rfl, -⟩
      refine (does_checkout git layout).bind ?_ ?_
      · rintro deeds ⟨⟩ ⟨cloned, checkedOut, hdeeds, hcloned, hok⟩
        obtain ⟨hlength, hcheckedOut⟩ := hok () rfl
        obtain rfl := hdeeds.eq_of_length hlength
        refine (does_later _ _).mono ?_
        rintro later _ ⟨program, args, configured, h⟩
        exact ⟨git, program, args, cloned, checkedOut, configured,
          (List.prefix_append_right_inj [_, _, _]).mpr h, fun _ => hcloned (by simp),
          fun _ => hcheckedOut⟩
      · rintro deeds _ ⟨cloned, checkedOut, hdeeds, hcloned, -⟩
        have hlength := hdeeds.length_le
        refine ⟨git, "", [], cloned, checkedOut, .crashed, ?_, ?_, ?_⟩
        · exact (List.prefix_append_right_inj [_]).mpr (hdeeds.trans (List.prefix_append ..))
        · exact fun hlong => hcloned (Nat.lt_of_succ_lt_succ hlong)
        · exact fun hlong => absurd hlength (Nat.not_le_of_lt (Nat.lt_of_succ_lt_succ hlong))
    · rintro _ _ ⟨rfl, -⟩
      exact provided
  · rintro _ _ rfl
    exact provided

theorem does_build (env : BuildEnvironment) (job : Job) (id : BuildId) :
    Does (.deeds env) (build env job id) fun deeds _ =>
      Orderly job (Layout.of env.buildRoot job.profile job.repo id) deeds := by
  refine does_findGit.bind ?_ ?_
  · rintro _ git ⟨rfl, -⟩
    exact (does_stages git).reporting
  · rintro _ _ ⟨rfl, -⟩
    exact ⟨"", "", [], .crashed, .crashed, .crashed, List.nil_prefix, by simp, by simp⟩

/-- What is provided is a directory afterwards, and providing it again does nothing. -/
theorem on_provision_again {stage : Stage} {path : String} (hempty : path ≠ "")
    (hopen : Path.isOpen path = false) {s s' : Site}
    (h : on (provision stage path) s = (.ok (), s')) :
    s'.fs.isDirectory path ∧ ∀ again, on (provision again path) s' = (.ok (), s') := by
  have hdirectory : s'.fs.isDirectory path := by
    rw [on_provision] at h
    cases hensure : FileSystem.ensureDir path s.fs with
    | mk result fs =>
      rw [hensure] at h
      cases result with
      | error e => cases h
      | ok created =>
        obtain ⟨⟩ := h
        have hprovided := FileSystem.isDirectory_ensureDir hempty hopen (congrArg Prod.fst hensure)
        rwa [hensure] at hprovided
  refine ⟨hdirectory, fun again => ?_⟩
  rw [on_provision, FileSystem.ensureDir_of_isDirectory hdirectory]
  rfl

end

/-- However a build ends, what it leaves comes about from what was there by its
    programs, run in order, and by making sure of directories: of the toplevel one,
    and of that for binaries if the sources have been checked out. Making sure of a
    directory only adds directories to which its path or a lexical ancestor leads.
    Where it succeeds the directory is there, and doing it again does nothing. -/
theorem runBuild_frame (env : BuildEnvironment) (job : Job) (id : BuildId) (site : Site) :
    let layout := Layout.of env.buildRoot job.profile job.repo id
    (∃ deeds, Orderly job layout deeds ∧
      Course env deeds site.fs (runBuild env job id site).2.fs ∧
      (runBuild env job id site).2.calls = site.calls ++ deeds.filterMap Deed.call?) ∧
    ∀ path ∈ [layout.toplevel, layout.binaries], ∀ stage s s',
      on (provision stage path) s = (.ok (), s') →
        s'.fs.isDirectory path ∧ ∀ again, on (provision again path) s' = (.ok (), s') := by
  intro layout
  constructor
  · obtain ⟨deeds, hdeeds, horderly⟩ := does_build env job id site
    exact ⟨deeds, horderly, hdeeds⟩
  · intro path hpath stage s s' hprovided
    simp only [List.mem_cons, List.not_mem_nil, or_false] at hpath
    obtain rfl | rfl := hpath
    · exact on_provision_again (Path.join_ordinary_ne_empty _ (ordinary_text id))
        (isOpen_toplevel ..) hprovided
    · exact on_provision_again (Path.join_ordinary_ne_empty _ ordinary_binaries)
        (isOpen_binaries ..) hprovided

end BuildServer.Build
