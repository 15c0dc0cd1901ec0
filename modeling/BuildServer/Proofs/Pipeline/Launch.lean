-- SUMMARY: Every program that a build runs has been looked up and can be executed; which ones are run where they were looked up.
import BuildServer.Execution.SearchPath
import BuildServer.Proofs.Path
import BuildServer.Proofs.Pipeline.Configure
import BuildServer.Proofs.Pipeline.Frame

/-!
# Launching

A program is looked up from the working directory of the build, and it is started
in the working directory of its invocation. For an absolute path this makes no
difference. A relative one, from the configure command or because of a relative
directory on the search path, leads elsewhere as soon as the two directories are
different ones.
-/

namespace BuildServer.Build

/-! ## Search path -/

theorem slash_mem_join {dir : String} (hdir : dir ≠ "") (name : String) :
    '/' ∈ (Path.join dir name).toList := by
  rw [Path.join]
  split
  · next h =>
    rw [Path.isAbsolute, beq_iff_eq] at h
    exact List.mem_of_mem_head? h
  · split
    · next h =>
      have hlast : dir.toList.getLast? = some '/' := by simpa [hdir] using h
      rw [String.toList_append, List.mem_append]
      exact .inl (List.mem_of_mem_getLast? hlast)
    · simp

/-- What is found can be executed and is a path. -/
theorem of_locate {s : SearchPath} {fs : FileSystem} {name program : String}
    (hdirs : ∀ dir ∈ s.dirs, dir ≠ "") (h : s.locate fs name = some program) :
    fs.isExecutable program ∧ '/' ∈ program.toList := by
  rw [SearchPath.locate] at h
  split at h
  · cases h
  · split at h
    · next hslash =>
      split at h
      · next hexecutable =>
        cases h
        exact ⟨hexecutable, by simpa using hslash⟩
      · cases h
    · refine ⟨List.find?_some h, ?_⟩
      obtain ⟨dir, hdir, rfl⟩ := List.mem_map.mp (List.mem_of_find?_eq_some h)
      exact slash_mem_join (hdirs dir hdir) name

/-! ## The working directory of a build -/

/-- What steps do to the working directory. -/
def Record.workdir : Record Empty where
  holds _ s s' := s'.fs.cwd = s.fs.cwd
  reports _ _ := rfl
  append h h' := h'.trans h

/-- Steps that stay in the working directory. -/
abbrev Stays {α : Type} (b : Build α) : Prop :=
  Does .workdir b fun _ _ => True

section

variable {env : BuildEnvironment} {job : Job} {id : BuildId}

theorem Stays.bind {α β : Type} {b : Build α} {f : α → Build β} (hb : Stays b)
    (hf : ∀ a, Stays (f a)) : Stays (b >>= f) :=
  Does.bind hb (fun _ a _ => hf a) fun _ _ _ => trivial

theorem stays_provision (stage : Stage) {path : String} (hopen : Path.isOpen path = false) :
    Stays (provision stage path) := by
  intro s
  have hcwd : (on (provision stage path) s).2.fs.cwd = s.fs.cwd := by
    rw [on_provision_fs]
    exact (FileSystem.grown_ensureDir hopen s.fs).cwd
  exact ⟨[], hcwd, trivial⟩

theorem stays_runChecked (hruns : ∀ i fs, (env.run i fs).2.cwd = fs.cwd) (stage : Stage)
    (i : Invocation) : Stays (runChecked env stage i) := by
  have hinvoke : Stays (invoke env i) := fun s => ⟨[], hruns i s.fs, trivial⟩
  refine hinvoke.bind fun outcome => ?_
  cases outcome with
  | exited status =>
    dsimp only
    split
    · exact .pure trivial
    · exact .fail trivial
  | notStarted cause => exact .fail trivial
  | crashed => exact .halt trivial

theorem stays_attempt (hruns : ∀ i fs, (env.run i fs).2.cwd = fs.cwd) {g : Gate}
    (hg : g ≠ .configure) (p : Progress) : Stays (g.attempt env job id p) := by
  have keeping {α : Type} {b : Build α} {f : α → Progress} (hb : Stays b) :
      Stays (b >>= fun a => pure (f a)) := hb.bind fun _ => .pure trivial
  cases g with
  | configure => exact absurd rfl hg
  | findGit => exact keeping (does_findGit.mono fun _ _ _ => trivial)
  | createToplevel => exact keeping (stays_provision _ (isOpen_toplevel ..))
  | readBindings => exact keeping (does_loadBindings.mono fun _ _ _ => trivial)
  | acceptRevision =>
    simp only [Gate.attempt]
    split
    · exact .fail trivial
    · exact .pure trivial
  | clone => exact keeping (stays_runChecked hruns _ _)
  | checkOut => exact keeping (stays_runChecked hruns _ _)
  | createBinaries => exact keeping (stays_provision _ (isOpen_binaries ..))
  | readConfig => exact keeping ((does_loadConfig _).mono fun _ _ _ => trivial)

theorem stays_meet (hruns : ∀ i fs, (env.run i fs).2.cwd = fs.cwd) {gates : List Gate}
    (hgates : .configure ∉ gates) (p : Progress) : Stays (meet env job id p gates) := by
  induction gates generalizing p with
  | nil => exact .pure trivial
  | cons g gates ih =>
    rw [List.mem_cons, not_or] at hgates
    rw [meet_cons]
    exact Stays.bind (stays_attempt hruns (Ne.symm hgates.1) p) fun q => ih hgates.2 q

theorem cwd_of_passes (hruns : ∀ i fs, (env.run i fs).2.cwd = fs.cwd) {site reached : Site}
    {p : Progress} (h : Passes env job id Gate.configure.earlier site p reached) :
    reached.fs.cwd = site.fs.cwd := by
  have hstays : Stays (meet env job id .start Gate.configure.earlier) :=
    stays_meet hruns (by decide) .start
  obtain ⟨_, hcwd, -⟩ := hstays site
  rwa [h] at hcwd

/-! ## Programs that are looked up -/

/-- The program of an invocation is what a look-up on this file system has given: git
    at the very beginning, and the program of the configure command at the last gate. -/
inductive LookedUp (env : BuildEnvironment) (job : Job) (id : BuildId) (site : Site) :
    Invocation → FileSystem → Prop where
  | clone {git : String} (hfound : env.locate site.fs gitTool = some git) :
      LookedUp env job id site
        (cloneCall git job (Layout.of env.buildRoot job.profile job.repo id)) site.fs
  | checkOut {git : String} (hfound : env.locate site.fs gitTool = some git) :
      LookedUp env job id site
        (checkoutCall git job (Layout.of env.buildRoot job.profile job.repo id)) site.fs
  | configure {p : Progress} {reached : Site} {tool program : String} {args : List String}
      (hpasses : Passes env job id Gate.configure.earlier site p reached)
      (hwords : configureWords p.config p.bindings job.profile = .ok (some (tool :: args)))
      (hfound : env.locate reached.fs tool = some program) :
      LookedUp env job id site
        (configureCall program args (Layout.of env.buildRoot job.profile job.repo id)) reached.fs

theorem LookedUp.located {site : Site} {i : Invocation} {fs : FileSystem}
    (h : LookedUp env job id site i fs) : ∃ tool, env.locate fs tool = some i.program := by
  cases h with
  | clone hfound => exact ⟨_, hfound⟩
  | checkOut hfound => exact ⟨_, hfound⟩
  | configure _ _ hfound => exact ⟨_, hfound⟩

theorem LookedUp.cwd {site : Site} {i : Invocation} {fs : FileSystem}
    (hruns : ∀ i fs, (env.run i fs).2.cwd = fs.cwd) (h : LookedUp env job id site i fs) :
    fs.cwd = site.fs.cwd := by
  cases h with
  | clone => rfl
  | checkOut => rfl
  | configure hpasses => exact cwd_of_passes hruns hpasses

/-- Behind the first gate, git is what was found on the file system that the build began on. -/
theorem git_of_passes {g : Gate} (hg : g ≠ .findGit) {site reached : Site} {p : Progress}
    (h : Passes env job id g.earlier site p reached) : env.locate site.fs gitTool = some p.git := by
  obtain ⟨later, hcons, hfirst, hlast⟩ : ∃ later, g.earlier = [.findGit] ++ later ∧
      .findGit ∉ later ∧ .configure ∉ later := by
    cases g with
    | findGit => exact absurd rfl hg
    | _ => exact ⟨_, rfl, by decide, by decide⟩
  rw [hcons] at h
  obtain ⟨q, found, hfound, hlater⟩ := passes_append _ _ h
  obtain ⟨-, hgit⟩ := meet_calls hfirst hlast hlater
  rw [Passes, meet_singleton, Gate.attempt, findGit, on_bind, on_bind, on_inspect] at hfound
  cases hlocate : env.locate site.fs gitTool with
  | none => simp [hlocate, on_bind] at hfound
  | some git =>
    simp only [hlocate, on_pure] at hfound
    cases hfound
    rw [hgit]

theorem lookedUp_of_mem_calls {g : Gate} {site : Site} {git : String} {i : Invocation}
    (hfound : env.locate site.fs gitTool = some git)
    (hi : i ∈ g.calls git job (Layout.of env.buildRoot job.profile job.repo id)) :
    LookedUp env job id site i site.fs := by
  cases g with
  | clone =>
    rw [List.mem_singleton.mp hi]
    exact .clone hfound
  | checkOut =>
    rw [List.mem_singleton.mp hi]
    exact .checkOut hfound
  | _ => cases hi

theorem lookedUp_of_mem_configureCalls {site reached : Site} {p : Progress} {i : Invocation}
    (hpasses : Passes env job id Gate.configure.earlier site p reached)
    (hi : i ∈ configureCalls env (Layout.of env.buildRoot job.profile job.repo id) reached.fs
      (configureWords p.config p.bindings job.profile)) :
    LookedUp env job id site i reached.fs := by
  cases hwords : configureWords p.config p.bindings job.profile with
  | error cause => simp [hwords, configureCalls] at hi
  | ok words =>
    rcases words with _ | _ | ⟨tool, args⟩
    · simp [hwords, configureCalls] at hi
    · simp [hwords, configureCalls] at hi
    · simp only [hwords, configureCalls, Option.mem_toList, Option.map_eq_some_iff] at hi
      obtain ⟨program, hfound, rfl⟩ := hi
      exact .configure hpasses hwords hfound

/-- Nothing is run that has not been looked up. -/
theorem runBuild_lookedUp (env : BuildEnvironment) (job : Job) (id : BuildId) (site : Site) :
    ∃ calls, (runBuild env job id site).2.calls = site.calls ++ calls ∧
      ∀ i ∈ calls, ∃ fs, LookedUp env job id site i fs := by
  have last {p : Progress} {reached : Site}
      (hpasses : Passes env job id Gate.configure.earlier site p reached) :
      ∃ calls, (runBuild env job id site).2.calls = site.calls ++ calls ∧
        ∀ i ∈ calls, ∃ fs, LookedUp env job id site i fs := by
    have hcalls := calls_of_passes hpasses
    rw [passes_calls hpasses, List.append_assoc] at hcalls
    refine ⟨_, hcalls, fun i hi => ?_⟩
    obtain hi | hi := List.mem_append.mp hi
    · obtain ⟨g, -, hi⟩ := List.mem_flatMap.mp hi
      exact ⟨_, lookedUp_of_mem_calls (git_of_passes (g := Gate.configure) nofun hpasses) hi⟩
    · exact ⟨_, lookedUp_of_mem_configureCalls hpasses hi⟩
  obtain ⟨p, left, hpasses, -⟩ | ⟨g, p, reached, h, stopped, events, hpasses, hg, hrun⟩ :=
    runBuild_cases env job id site
  · obtain ⟨q, reached, hearlier, -⟩ := passes_concat Gate.configure.earlier hpasses
    exact last hearlier
  · by_cases hlast : g = .configure
    · subst hlast
      exact last hpasses
    · obtain ⟨own, hown, ⟨rfl, -⟩, -⟩ := asks_attempt hlast p reached
      have hcalls : (runBuild env job id site).2.calls = reached.calls ++
          g.calls p.git job (Layout.of env.buildRoot job.profile job.repo id) := by
        rw [hg] at hown
        rw [hrun]
        exact hown
      rw [passes_calls hpasses, List.append_assoc] at hcalls
      refine ⟨_, hcalls, fun i hi => ?_⟩
      by_cases hfirst : g = .findGit
      · subst hfirst
        cases hi
      · have hgit := git_of_passes hfirst hpasses
        obtain hi | hi := List.mem_append.mp hi
        · obtain ⟨g', -, hi⟩ := List.mem_flatMap.mp hi
          exact ⟨_, lookedUp_of_mem_calls hgit hi⟩
        · exact ⟨_, lookedUp_of_mem_calls hgit hi⟩

end

/-! ## Where programs are started -/

/-- The path that is executed for an invocation, seen from the root, when the build works
    in `workdir`: a relative one is followed from the directory of the invocation. -/
def launchPath (workdir : String) (i : Invocation) : String :=
  Path.join (i.cwd.elim workdir (Path.join workdir)) i.program

/-- A program is started where it was looked up if and only if its path is absolute or it
    is started in the working directory of the build. -/
theorem components_launchPath_iff {workdir : String} (hworkdir : workdir ≠ "") (i : Invocation) :
    Path.components (launchPath workdir i) = Path.components (Path.join workdir i.program) ↔
      Path.isAbsolute i.program ∨
        ∀ dir ∈ i.cwd, Path.components (Path.join workdir dir) = Path.components workdir := by
  rw [launchPath]
  cases habsolute : Path.isAbsolute i.program with
  | true =>
    rw [Path.join_of_isAbsolute habsolute, Path.join_of_isAbsolute habsolute]
    simp
  | false =>
    cases i.cwd with
    | none => simp
    | some dir =>
      rw [Option.elim_some, Path.components_join (Path.join_ne_empty hworkdir dir) habsolute,
        Path.components_join hworkdir habsolute, List.append_cancel_right_eq]
      simp

theorem path_ne_empty (p : Place) : Place.path p ≠ "" := by
  simp [Place.path]

section

variable {env : BuildEnvironment}

/-- Whatever a build runs was found on the search path, where it could be executed. What is
    executed is the same absolute path if and only if the path that was found is absolute,
    or the program is run in the working directory of the build. -/
theorem launched_iff {s : SearchPath} (hlocate : env.locate = s.locate)
    (hdirs : ∀ dir ∈ s.dirs, dir ≠ "") (hruns : ∀ i fs, (env.run i fs).2.cwd = fs.cwd) (job : Job)
    (id : BuildId) (site : Site) :
    ∃ calls, (runBuild env job id site).2.calls = site.calls ++ calls ∧ ∀ i ∈ calls,
      (∃ fs, LookedUp env job id site i fs ∧ fs.cwd = site.fs.cwd ∧ fs.isExecutable i.program) ∧
      '/' ∈ i.program.toList ∧
      (Path.components (launchPath site.fs.cwd.path i) =
          Path.components (Path.join site.fs.cwd.path i.program) ↔
        Path.isAbsolute i.program ∨ ∀ dir ∈ i.cwd,
          Path.components (Path.join site.fs.cwd.path dir) = Path.components site.fs.cwd.path) := by
  obtain ⟨calls, hcalls, hlookedUp⟩ := runBuild_lookedUp env job id site
  refine ⟨calls, hcalls, fun i hi => ?_⟩
  obtain ⟨fs, h⟩ := hlookedUp i hi
  obtain ⟨tool, hfound⟩ := h.located
  rw [hlocate] at hfound
  obtain ⟨hexecutable, hslash⟩ := of_locate hdirs hfound
  exact ⟨⟨fs, h, h.cwd hruns, hexecutable⟩, hslash,
    components_launchPath_iff (path_ne_empty _) i⟩

end

/-! ## A configure script beside the build -/

/-- Tools on the search path, and one more in the root directory. -/
def toolsFs : FileSystem :=
  (((vacantRoot.put [] "usr" .directory).put ["usr"] "bin" .directory).put ["usr", "bin"] "git"
    (.file [] 0o755)).put [] "configure" (.file [] 0o755)

def searchEnv (command : String) : BuildEnvironment :=
  { commandEnv "b" command with locate := (SearchPath.mk ["/usr/bin"]).locate }

theorem cwd_run_searchEnv (command : String) (i : Invocation) (fs : FileSystem) :
    ((searchEnv command).run i fs).2.cwd = fs.cwd := by
  have hput (fs : FileSystem) (dir : Place) (name : String) (node : Node) :
      (fs.put dir name node).cwd = fs.cwd := (FileSystem.Inward.put List.prefix_rfl name node).cwd fs
  change (if i.cwd = none then _ else fs).cwd = fs.cwd
  split
  · rw [hput, hput]
  · rfl

/-- Whatever is found in a directory with an absolute path is what is run. -/
theorem launched_iff_absolute :
    let calls := (runBuild (searchEnv "git --version") (jobOf "p") firstId ⟨toolsFs, [], []⟩).2.calls
    calls.length = 3 ∧ ∀ i ∈ calls,
      Path.components (launchPath "/" i) = Path.components (Path.join "/" i.program) := by
  intro calls
  have habsolute : calls.length = 3 ∧ ∀ i ∈ calls, Path.isAbsolute i.program := by decide +kernel
  refine ⟨habsolute.1, fun i hi => ?_⟩
  have hlocate : (searchEnv "git --version").locate = (SearchPath.mk ["/usr/bin"]).locate := rfl
  obtain ⟨own, hown, hlaunched⟩ := launched_iff hlocate (by decide) (cwd_run_searchEnv _) (jobOf "p")
    firstId ⟨toolsFs, [], []⟩
  have hmem : i ∈ own := by
    rw [List.nil_append] at hown
    exact hown ▸ hi
  exact (hlaunched i hmem).2.2.mpr (.inl (habsolute.2 i hi))

/-- A configure script that is looked up in the working directory of the build is executed
    in the directory for binaries, where there is none. -/
theorem launched_elsewhere :
    let run := buildOn (searchEnv "./configure") (jobOf "p") firstId toolsFs
    let call : Invocation := ⟨"./configure", [], some "/b/p/r/0a1b2c3d/build"⟩
    run.2.calls.getLast? = some call ∧ toolsFs.cwd.path = "/" ∧
      toolsFs.isExecutable "./configure" = true ∧
      Path.components (launchPath "/" call) ≠ Path.components (Path.join "/" call.program) ∧
      run.2.fs.isExecutable (launchPath "/" call) = false := by
  decide +kernel

end BuildServer.Build
