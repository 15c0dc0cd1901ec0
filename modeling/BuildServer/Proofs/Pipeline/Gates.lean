-- SUMMARY: Builds pass one gate after the other: the first one that fails ends them and names their stage.
import BuildServer.Proofs.Except
import BuildServer.Proofs.Pipeline.Site

/-!
# Gates

A build has nine gates to pass, always in the same order. It ends well if it
passes all of them. Otherwise it ends at the first gate that does not let it
pass, on the site that this gate leaves behind, and the failure names the stage
that the gate belongs to. The programs that a build asks for are therefore the
first ones of: clone, check out, configure.
-/

namespace BuildServer.Build

inductive Gate where
  | findGit
  | createToplevel
  | readBindings
  | acceptRevision
  | clone
  | checkOut
  | createBinaries
  | readConfig
  | configure
  deriving DecidableEq

namespace Gate

/-- The gates in the order in which a build meets them. -/
def all : List Gate :=
  [findGit, createToplevel, readBindings, acceptRevision, clone, checkOut, createBinaries,
    readConfig, configure]

/-- The gates that a build has passed when it meets this one. -/
def earlier (g : Gate) : List Gate :=
  all.takeWhile (· != g)

def stage : Gate → Stage
  | findGit => .resolveTools
  | createToplevel => .provisionToplevel
  | readBindings => .loadBindings
  | acceptRevision | clone | checkOut => .checkout
  | createBinaries => .provisionBinaryDir
  | readConfig => .loadBuildConfig
  | configure => .configure

end Gate

/-- What a build has got from the gates that it has passed. -/
structure Progress where
  git : String
  bindings : Bindings
  config : Settings
  configured : Bool

def Progress.start : Progress where
  git := ""
  bindings := .empty
  config := .ofPairs []
  configured := false

/-- The configure command is there and has nothing but blanks. -/
def ConfigureBlank (config : Settings) (profile : String) : Prop :=
  ∃ command, config.get? (configureKey profile) = some command ∧
    command.toList.all Text.isBlank

section

variable (env : BuildEnvironment) (job : Job) (id : BuildId)

/-- Meet one gate. -/
def Gate.attempt (p : Progress) (g : Gate) : Build Progress :=
  let layout := Layout.of env.buildRoot job.profile job.repo id
  match g with
  | findGit => do
    let git ← Build.findGit env job
    return { p with git }
  | createToplevel => do
    provision .provisionToplevel layout.toplevel
    return p
  | readBindings => do
    let bindings ← loadBindings env
    return { p with bindings := bindJob bindings job id }
  | acceptRevision => do
    if job.revision.toList.head? = some '-' then
      fail .checkout (.optionLikeRevision job.revision)
    return p
  | clone => do
    runChecked env .checkout (cloneCall p.git job layout)
    return p
  | checkOut => do
    runChecked env .checkout (checkoutCall p.git job layout)
    return { p with bindings := p.bindings.insert sourcesName layout.sources }
  | createBinaries => do
    provision .provisionBinaryDir layout.binaries
    return { p with bindings := p.bindings.insert binariesName layout.binaries }
  | readConfig => do
    let config ← loadConfig job layout
    return { p with config }
  | configure => do
    let configured ← Build.configure env p.config p.bindings job layout
    return { p with configured }

/-- Meet gates one after the other. -/
def meet (p : Progress) (gates : List Gate) : Build Progress :=
  gates.foldlM (Gate.attempt env job id) p

/-- A build that begins on `s` passes the gates, has got `p` by then and leaves `s'`. -/
def Passes (gates : List Gate) (s : Site) (p : Progress) (s' : Site) : Prop :=
  on (meet env job id .start gates) s = (.ok p, s')

theorem stages_eq (p : Progress) :
    stages env p.git job id = do
      let q ← meet env job id p Gate.all.tail
      return ⟨id, Layout.of env.buildRoot job.profile job.repo id, q.configured⟩ := by
  by_cases hdash : job.revision.toList.head? = some '-' <;>
    simp [stages, meet, Gate.all, Gate.attempt, checkout, hdash, fail_bind, -bind_pure_comp]

end

/-! ## The first gate that fails -/

section

variable {env : BuildEnvironment} {job : Job} {id : BuildId}

theorem Gate.earlier_eq {g : Gate} {before : List Gate} (after : List Gate)
    (h : all = before ++ g :: after) :
    g.earlier = before := by
  have hnodup : (before ++ g :: after).Nodup := h ▸ (by decide : all.Nodup)
  have hbefore : ∀ x ∈ before, (x != g) = true := by
    intro x hx
    rw [bne_iff_ne]
    rintro rfl
    exact (List.nodup_append.mp hnodup).2.2 x hx x (by simp) rfl
  rw [earlier, h, List.takeWhile_append_of_pos hbefore]
  simp

/-- A build that starts with the first gate goes on with the others. -/
theorem on_build (s : Site) :
    on (build env job id) s = match on (Gate.findGit.attempt env job id .start) s with
      | (.ok p, t) => on (reporting (stages env p.git job id)) t
      | (.error h, t) => (.error h, t) := by
  rw [build, on_bind]
  change _ = match on (findGit env job >>= fun git => pure { Progress.start with git }) s with
    | (.ok p, t) => on (reporting (stages env p.git job id)) t
    | (.error h, t) => (.error h, t)
  rw [on_bind]
  generalize on (findGit env job) s = r
  obtain ⟨_ | git, t⟩ := r <;> rfl

theorem meet_cons (p : Progress) (g : Gate) (gates : List Gate) :
    meet env job id p (g :: gates) = g.attempt env job id p >>= fun q => meet env job id q gates :=
  List.foldlM_cons ..

/-- A build meets all its gates. If it fails, it may report this. -/
theorem runBuild_eq (env : BuildEnvironment) (job : Job) (id : BuildId) (s : Site) :
    ∃ events, runBuild env job id s =
        ((on (meet env job id .start Gate.all) s).1.map fun p =>
            ⟨id, Layout.of env.buildRoot job.profile job.repo id, p.configured⟩,
          { (on (meet env job id .start Gate.all) s).2 with events }) ∧
      ((on (meet env job id .start Gate.all) s).1.isOk →
        events = (on (meet env job id .start Gate.all) s).2.events) := by
  have hrun : runBuild env job id s = on (build env job id) s := rfl
  rw [hrun, on_build, Gate.all, meet_cons, on_bind]
  cases on (Gate.findGit.attempt env job id .start) s with
  | mk r t =>
    cases r with
    | error h => exact ⟨t.events, rfl, nofun⟩
    | ok p =>
      dsimp only
      rw [on_reporting, stages_eq, on_bind, Gate.all, List.tail_cons]
      generalize on (meet env job id p _) t = later
      obtain ⟨h | q, left⟩ := later
      · exact ⟨left.events ++ h.notice, rfl, nofun⟩
      · exact ⟨left.events, rfl, fun _ => rfl⟩

/-- A build passes all gates or ends at the first one that does not let it pass. -/
theorem runBuild_cases (env : BuildEnvironment) (job : Job) (id : BuildId) (s : Site) :
    (∃ p left, Passes env job id Gate.all s p left ∧ runBuild env job id s =
      (.ok ⟨id, Layout.of env.buildRoot job.profile job.repo id, p.configured⟩, left)) ∨
    ∃ (g : Gate) (p : Progress) (reached : Site) (h : Halt) (stopped : Site) (events : List Event),
      Passes env job id g.earlier s p reached ∧
      on (g.attempt env job id p) reached = (.error h, stopped) ∧
      runBuild env job id s = (.error h, { stopped with events }) := by
  obtain ⟨events, hrun, hevents⟩ := runBuild_eq env job id s
  cases hmeet : on (meet env job id .start Gate.all) s with
  | mk r left =>
    rw [hmeet] at hrun hevents
    cases r with
    | ok p =>
      obtain rfl := hevents rfl
      exact .inl ⟨p, left, hmeet, hrun⟩
    | error h =>
      obtain ⟨before, g, after, p, reached, hsplit, hbefore, hg⟩ := on_foldlM_error hmeet
      have hearlier : g.earlier = before := Gate.earlier_eq after hsplit
      exact .inr ⟨g, p, reached, h, left, events, hearlier ▸ hbefore, hg, hrun⟩

/-! ## The programs that a build asks for -/

/-- What a gate asks for, apart from the configure command. -/
def Gate.calls (git : String) (job : Job) (layout : Layout) : Gate → List Invocation
  | clone => [cloneCall git job layout]
  | checkOut => [checkoutCall git job layout]
  | _ => []

/-- The gates that may ask for a program. -/
def Gate.running : List Gate :=
  [clone, checkOut, configure]

theorem Gate.mem_running_of_calls {g : Gate} {git : String} {layout : Layout}
    (h : g.calls git job layout ≠ []) : g ∈ running := by
  cases g with
  | clone | checkOut | configure => decide
  | _ => exact absurd rfl h

/-- Why a gate can fail. Three gates belong to the same stage, and only the first
    of them fails because of the revision itself. -/
def Gate.Causes : Gate → StageError → Prop
  | acceptRevision, cause => ∃ revision, cause = .optionLikeRevision revision
  | clone, cause | checkOut, cause => ∀ revision, cause ≠ .optionLikeRevision revision
  | _, _ => True

theorem does_findGit {δ : Type} {R : Record δ} :
    Does R (findGit env job) (Only .resolveTools (fun _ => True) []) := by
  refine Does.inspect_bind _ fun found => ?_
  cases found with
  | some git => exact .only_pure git
  | none => exact Does.report_bind _ (.only_fail trivial)

theorem does_loadBindings {δ : Type} {R : Record δ} :
    Does R (loadBindings env) (Only .loadBindings (fun _ => True) []) := by
  refine Does.inspect_bind _ fun loaded => ?_
  refine (Does.only_check fun _ _ => trivial).only_bind fun settings => ?_
  cases settings with
  | some settings => exact .only_pure _
  | none => exact Does.report_bind _ (.only_pure _)

theorem does_loadConfig {δ : Type} {R : Record δ} (layout : Layout) :
    Does R (loadConfig job layout) (Only .loadBuildConfig (fun _ => True) []) :=
  Does.inspect_bind _ fun _ => .only_check fun _ _ => trivial

/-- A gate before the last one makes its calls, whether it lets the build pass or
    not. Only the first one changes which git is used. -/
theorem asks_attempt {g : Gate} (hlast : g ≠ .configure) (p : Progress) :
    let layout := Layout.of env.buildRoot job.profile job.repo id
    Asks (g.attempt env job id p) fun calls r =>
      Only g.stage g.Causes (g.calls p.git job layout) calls r ∧
        ∀ q, r = .ok q → g ≠ .findGit → q.git = p.git := by
  intro layout
  have keeping {β : Type} {b : Build β} {f : β → Progress} {own : List Invocation}
      (hb : Asks b (Only g.stage g.Causes own)) (hf : ∀ a, g ≠ .findGit → (f a).git = p.git) :
      Asks (b >>= fun a => pure (f a)) fun calls r =>
        Only g.stage g.Causes own calls r ∧ ∀ q, r = .ok q → g ≠ .findGit → q.git = p.git := by
    refine (Does.only_return f hb).mono fun calls r ⟨honly, hr⟩ => ⟨honly, fun q hq => ?_⟩
    obtain ⟨a, rfl⟩ := hr q hq
    exact hf a
  cases g with
  | configure => exact absurd rfl hlast
  | findGit => exact keeping does_findGit fun _ h => absurd rfl h
  | createToplevel => exact keeping (.only_provision _ fun _ => trivial) fun _ _ => rfl
  | readBindings => exact keeping does_loadBindings fun _ _ => rfl
  | acceptRevision =>
    simp only [Gate.attempt]
    split
    · exact .fail ⟨.error ⟨rfl, _, rfl⟩, nofun⟩
    · exact .pure ⟨.ok p, by rintro _ ⟨⟩ -; rfl⟩
  | clone => exact keeping (.only_runChecked env _ nofun nofun) fun _ _ => rfl
  | checkOut => exact keeping (.only_runChecked env _ nofun nofun) fun _ _ => rfl
  | createBinaries => exact keeping (.only_provision _ fun _ => trivial) fun _ _ => rfl
  | readConfig => exact keeping (does_loadConfig layout) fun _ _ => rfl

/-- There is nothing to run if and only if the command is blank before any token
    of it is replaced. -/
theorem configureWords_eq_none (config : Settings) (b : Bindings) (profile : String) :
    configureWords config b profile = .ok none ↔ ConfigureBlank config profile := by
  unfold configureWords ConfigureBlank
  cases hcommand : config.get? (configureKey profile) with
  | none =>
    have hrequired : config.required .text (configureKey profile) =
        .error (.missingKey (configureKey profile)) := by
      rw [Settings.required, hcommand]
    simp [hrequired, mapError_error, bind, Except.bind]
  | some command =>
    have hrequired : config.required .text (configureKey profile) = .ok command := by
      rw [Settings.required, hcommand]
      rfl
    by_cases hblank : command.toList.all Text.isBlank = true
    · simp only [hrequired, mapError_ok, bind, Except.bind, hblank, if_true, pure, Except.pure,
        true_iff]
      exact ⟨command, rfl, hblank⟩
    · simp only [hrequired, mapError_ok, bind, Except.bind, hblank, Option.some.injEq,
        exists_eq_left']
      cases b.expand command with
      | error cause => simp [mapError_error]
      | ok expanded =>
        simp only [mapError_ok]
        cases Text.splitQuoted expanded <;>
          simp [throw, throwThe, MonadExceptOf.throw, pure, Except.pure]

/-- What the last gate asks for, and what this tells about the configure command. -/
structure Configuring (config : Settings) (job : Job) (layout : Layout) (calls : List Invocation)
    (r : Except Halt Bool) : Prop where
  calls_eq : calls = [] ∨ ∃ program args, calls = [configureCall program args layout]
  error_of : ∀ h, r = .error h → h.Of .configure Gate.configure.Causes calls
  length_eq : ∀ configured, r = .ok configured → calls.length = configured.toNat
  blank_iff : ∀ configured, r = .ok configured →
    (configured = false ↔ ConfigureBlank config job.profile)

namespace Configuring

variable {config : Settings} {layout : Layout} {calls : List Invocation}

theorem returned {configured : Bool}
    (hcalls : calls = [] ∨ ∃ program args, calls = [configureCall program args layout])
    (hlength : calls.length = configured.toNat)
    (hblank : configured = false ↔ ConfigureBlank config job.profile) :
    Configuring config job layout calls (.ok configured) := by
  refine ⟨hcalls, ?_, ?_, ?_⟩
  · rintro _ ⟨⟩
  · rintro _ ⟨⟩
    exact hlength
  · rintro _ ⟨⟩
    exact hblank

theorem halted {h : Halt}
    (hcalls : calls = [] ∨ ∃ program args, calls = [configureCall program args layout])
    (hof : h.Of .configure Gate.configure.Causes calls) :
    Configuring config job layout calls (.error h) := by
  refine ⟨hcalls, ?_, nofun, nofun⟩
  rintro _ ⟨⟩
  exact hof

end Configuring

theorem asks_configure (config : Settings) (b : Bindings) (layout : Layout) :
    Asks (configure env config b job layout) (Configuring config job layout) := by
  have hblank := configureWords_eq_none config b job.profile
  have failing {cause : StageError} :
      Asks (fail .configure cause) (Configuring config job layout) :=
    .fail (.halted (.inl rfl) ⟨rfl, trivial⟩)
  unfold configure
  cases hwords : configureWords config b job.profile with
  | error cause =>
    rw [check_error, fail_bind]
    exact failing
  | ok words =>
    rw [hwords] at hblank
    rw [check_ok, pure_bind]
    match words with
    | none =>
      have hblank' : ConfigureBlank config job.profile := hblank.mp rfl
      exact Does.report_bind _ (.pure (.returned (.inl rfl) rfl (by simpa using hblank')))
    | some [] => exact failing
    | some (tool :: args) =>
      have hblank' : ¬ ConfigureBlank config job.profile := fun h => nomatch hblank.mpr h
      refine Does.inspect_bind _ fun found => ?_
      cases found with
      | none => exact failing
      | some program =>
        have hrun : Asks (runChecked env .configure (configureCall program args layout))
            (Only .configure Gate.configure.Causes [configureCall program args layout]) :=
          .only_runChecked env _ (fun _ => trivial) fun _ => trivial
        refine hrun.bind ?_ ?_
        · rintro _ ⟨⟩ ⟨rfl, -⟩
          exact .pure (.returned (.inr ⟨program, args, rfl⟩) rfl (by simpa using hblank'))
        · rintro _ h ⟨rfl, hh⟩
          exact .halted (.inr ⟨program, args, rfl⟩) (hh h rfl)

/-- Gates after the first that let the build pass have made their calls. -/
theorem meet_calls {gates : List Gate} (hfirst : .findGit ∉ gates) (hlast : .configure ∉ gates)
    {p q : Progress} {s t : Site} (h : on (meet env job id p gates) s = (.ok q, t)) :
    let layout := Layout.of env.buildRoot job.profile job.repo id
    t.calls = s.calls ++ gates.flatMap (·.calls p.git job layout) ∧ q.git = p.git := by
  intro layout
  induction gates generalizing p s with
  | nil =>
    obtain ⟨⟩ := h
    simp
  | cons g gates ih =>
    rw [List.mem_cons, not_or] at hfirst hlast
    obtain ⟨calls, hcalls, ⟨rfl, -⟩, hgit⟩ :=
      asks_attempt (Ne.symm hlast.1) p s
    rw [meet_cons, on_bind] at h
    cases hg : on (g.attempt env job id p) s with
    | mk r s' =>
      rw [hg] at h hcalls hgit
      cases r with
      | error h' => cases h
      | ok p' =>
        obtain ⟨hrest, hq⟩ := ih hfirst.2 hlast.2 h
        have hp' : p'.git = p.git := hgit p' rfl (Ne.symm hfirst.1)
        refine ⟨?_, hq.trans hp'⟩
        rw [hrest, hcalls, hp', List.flatMap_cons, List.append_assoc]

/-- The calls that were made by the time a gate is met. -/
theorem passes_calls {g : Gate} {s t : Site} {p : Progress} (h : Passes env job id g.earlier s p t) :
    t.calls = s.calls ++ g.earlier.flatMap
      (·.calls p.git job (Layout.of env.buildRoot job.profile job.repo id)) := by
  have hearlier : g.earlier = [] ∨
      ∃ later, g.earlier = .findGit :: later ∧ .findGit ∉ later ∧ .configure ∉ later := by
    cases g with
    | findGit => exact .inl rfl
    | _ => exact .inr ⟨_, rfl, by decide, by decide⟩
  obtain hnil | ⟨later, hcons, hfirst, hlast⟩ := hearlier
  · rw [hnil] at h ⊢
    obtain ⟨⟩ := h
    simp
  · rw [hcons, Passes, meet_cons, on_bind] at h
    obtain ⟨calls, hcalls, ⟨rfl, -⟩, -⟩ :=
      asks_attempt (g := .findGit) nofun .start s
    cases hfind : on (Gate.findGit.attempt env job id .start) s with
    | mk r s' =>
      rw [hfind] at h hcalls
      cases r with
      | error h' => cases h
      | ok p' =>
        obtain ⟨hrest, hgit⟩ := meet_calls hfirst hlast h
        rw [hrest, hcalls, hcons, hgit]
        simp [Gate.calls]

theorem asks_attempt_configure (p : Progress) :
    Asks (Gate.configure.attempt env job id p) fun calls r =>
      Configuring p.config job (Layout.of env.buildRoot job.profile job.repo id) calls
        (r.map Progress.configured) ∧ ∀ q, r = .ok q → q.config = p.config := by
  refine (asks_configure p.config p.bindings _).bind ?_ ?_
  · intro calls configured hcalls
    refine .pure ⟨by rwa [List.append_nil], ?_⟩
    rintro _ ⟨⟩
    rfl
  · intro calls h hcalls
    exact ⟨hcalls, nofun⟩

theorem meet_singleton (p : Progress) (g : Gate) :
    meet env job id p [g] = g.attempt env job id p := by
  rw [meet_cons]
  exact bind_pure _

/-- Behind the gates that it has passed, a build goes on with what it has got. -/
theorem on_meet_append {gates : List Gate} {s t : Site} {p : Progress}
    (h : Passes env job id gates s p t) (more : List Gate) :
    on (meet env job id .start (gates ++ more)) s = on (meet env job id p more) t := by
  rw [Passes, meet] at h
  rw [meet, List.foldlM_append, on_bind, h, meet]

theorem passes_append (gates more : List Gate) {s t : Site} {p : Progress}
    (h : Passes env job id (gates ++ more) s p t) :
    ∃ q reached, Passes env job id gates s q reached ∧
      on (meet env job id q more) reached = (.ok p, t) := by
  rw [Passes, meet, List.foldlM_append, on_bind] at h
  cases hgates : on (gates.foldlM (Gate.attempt env job id) .start) s with
  | mk r reached =>
    rw [hgates] at h
    cases r with
    | error e => cases h
    | ok q => exact ⟨q, reached, hgates, h⟩

theorem passes_concat (gates : List Gate) {g : Gate} {s t : Site} {p : Progress}
    (h : Passes env job id (gates ++ [g]) s p t) :
    ∃ q reached, Passes env job id gates s q reached ∧
      on (g.attempt env job id q) reached = (.ok p, t) := by
  obtain ⟨q, reached, hgates, hg⟩ := passes_append gates [g] h
  exact ⟨q, reached, hgates, by rwa [meet_singleton] at hg⟩

/-! ## The whole trace -/

/-- How many programs a build has asked for when it fails. -/
def CallCount (e : BuildError) (n : Nat) : Prop :=
  match e.stage, e.cause with
  | .resolveTools, _ | .generateBuildId, _ | .provisionToplevel, _ | .loadBindings, _ => n = 0
  | .checkout, .optionLikeRevision _ => n = 0
  | .checkout, _ => n = 1 ∨ n = 2
  | .provisionBinaryDir, _ | .loadBuildConfig, _ => n = 2
  | .configure, _ => n = 2 ∨ n = 3

theorem callCount_of_gate {g : Gate} (hlast : g ≠ .configure) {e : BuildError}
    (hstage : e.stage = g.stage) (hcause : g.Causes e.cause) (git : String) (layout : Layout) :
    CallCount e ((g.earlier ++ [g]).flatMap (·.calls git job layout)).length := by
  obtain ⟨stage, cause⟩ := e
  obtain rfl : stage = g.stage := hstage
  cases g with
  | configure => exact absurd rfl hlast
  | acceptRevision =>
    obtain ⟨revision, rfl⟩ := hcause
    rfl
  | clone =>
    cases cause with
    | optionLikeRevision revision => exact absurd rfl (hcause revision)
    | _ => exact .inl rfl
  | checkOut =>
    cases cause with
    | optionLikeRevision revision => exact absurd rfl (hcause revision)
    | _ => exact .inr rfl
  | _ => rfl

/-- The calls of a build that meets the last gate. -/
theorem last_calls {p : Progress} {site reached left : Site} {r : Except Halt Progress}
    (hpasses : Passes env job id Gate.configure.earlier site p reached)
    (hlast : on (Gate.configure.attempt env job id p) reached = (r, left)) :
    let layout := Layout.of env.buildRoot job.profile job.repo id
    ∃ program args own,
      cloneCall p.git job layout :: checkoutCall p.git job layout :: own <+:
        [cloneCall p.git job layout, checkoutCall p.git job layout,
          configureCall program args layout] ∧
      left.calls = site.calls ++
        cloneCall p.git job layout :: checkoutCall p.git job layout :: own ∧
      Configuring p.config job layout own (r.map Progress.configured) ∧
      ∀ q, r = .ok q → q.config = p.config := by
  intro layout
  obtain ⟨own, hown, hconfiguring, hconfig⟩ := asks_attempt_configure p reached
  rw [hlast] at hown hconfiguring hconfig
  have hcalls : left.calls = site.calls ++
      cloneCall p.git job layout :: checkoutCall p.git job layout :: own := by
    rw [hown, passes_calls hpasses, List.append_assoc]
    rfl
  obtain rfl | ⟨program, args, rfl⟩ := hconfiguring.calls_eq
  · exact ⟨"", [], [], List.prefix_append .., hcalls, hconfiguring, hconfig⟩
  · exact ⟨program, args, _, List.prefix_rfl, hcalls, hconfiguring, hconfig⟩

/-- The calls of a build that stops at a gate. -/
theorem stop_calls {g : Gate} {p : Progress} {site reached stopped : Site} {h : Halt}
    (hpasses : Passes env job id g.earlier site p reached)
    (hg : on (g.attempt env job id p) reached = (.error h, stopped)) :
    let layout := Layout.of env.buildRoot job.profile job.repo id
    ∃ program args calls,
      calls <+: [cloneCall p.git job layout, checkoutCall p.git job layout,
        configureCall program args layout] ∧
      stopped.calls = site.calls ++ calls ∧
      (∀ e, h = .failed e → e.stage = g.stage ∧ CallCount e calls.length) ∧
      (h = .crashed → g ∈ Gate.running) := by
  intro layout
  by_cases hlast : g = .configure
  · subst hlast
    obtain ⟨program, args, own, hprefix, hcalls, hconfiguring, -⟩ := last_calls hpasses hg
    refine ⟨program, args, _, hprefix, hcalls, ?_, fun _ => by decide⟩
    rintro e rfl
    obtain ⟨hstage, -⟩ := hconfiguring.error_of _ rfl
    refine ⟨hstage, ?_⟩
    have hlength : own.length + 2 ≤ 3 := hprefix.length_le
    rw [CallCount, hstage]
    change own.length + 2 = 2 ∨ own.length + 2 = 3
    omega
  · obtain ⟨own, hown, ⟨rfl, hof⟩, -⟩ := asks_attempt hlast p reached
    rw [hg] at hown hof
    refine ⟨"", [], (g.earlier ++ [g]).flatMap (·.calls p.git job layout), ?_, ?_, ?_, ?_⟩
    · cases g <;> simp [Gate.earlier, Gate.all, Gate.calls]
    · rw [hown, passes_calls hpasses, List.append_assoc, List.flatMap_append,
        List.flatMap_singleton]
    · rintro e rfl
      obtain ⟨hstage, hcause⟩ := hof _ rfl
      exact ⟨hstage, callCount_of_gate hlast hstage hcause _ _⟩
    · rintro rfl
      exact Gate.mem_running_of_calls (hof _ rfl)

/-- How a build can end that has made these calls. -/
inductive Ended (env : BuildEnvironment) (job : Job) (id : BuildId) (site : Site)
    (calls : List Invocation) : Except Halt BuildReport × Site → Prop where
  | passed {p : Progress} {left : Site} (hpasses : Passes env job id Gate.all site p left)
      (hlength : calls.length = if p.configured then 3 else 2)
      (hblank : p.configured = false ↔ ConfigureBlank p.config job.profile) :
      Ended env job id site calls
        (.ok ⟨id, Layout.of env.buildRoot job.profile job.repo id, p.configured⟩, left)
  | stopped {g : Gate} {p : Progress} {reached stopped : Site} {h : Halt} {events : List Event}
      (hpasses : Passes env job id g.earlier site p reached)
      (hg : on (g.attempt env job id p) reached = (.error h, stopped))
      (hfailed : ∀ e, h = .failed e → e.stage = g.stage ∧ CallCount e calls.length)
      (hcrashed : h = .crashed → g ∈ Gate.running) :
      Ended env job id site calls (.error h, { stopped with events })

/-- A build asks for the first ones of three programs, and how it ends tells how many. -/
theorem exists_calls (env : BuildEnvironment) (job : Job) (id : BuildId) (site : Site) :
    let layout := Layout.of env.buildRoot job.profile job.repo id
    ∃ git program args calls,
      calls <+: [cloneCall git job layout, checkoutCall git job layout,
        configureCall program args layout] ∧
      (runBuild env job id site).2.calls = site.calls ++ calls ∧
      Ended env job id site calls (runBuild env job id site) := by
  intro layout
  obtain ⟨p, left, hpasses, hrun⟩ | ⟨g, p, reached, h, stopped, events, hpasses, hg, hrun⟩ :=
    runBuild_cases env job id site
  · obtain ⟨q, reached, hearlier, hlast⟩ := passes_concat Gate.configure.earlier hpasses
    obtain ⟨program, args, own, hprefix, hcalls, hconfiguring, hconfig⟩ := last_calls hearlier hlast
    rw [hrun]
    refine ⟨q.git, program, args, _, hprefix, hcalls, .passed hpasses ?_ ?_⟩
    · have hlength : own.length = p.configured.toNat := hconfiguring.length_eq p.configured rfl
      rw [List.length_cons, List.length_cons, hlength]
      cases p.configured <;> rfl
    · rw [hconfig p rfl]
      exact hconfiguring.blank_iff p.configured rfl
  · obtain ⟨program, args, calls, hprefix, hcalls, hfailed, hcrashed⟩ := stop_calls hpasses hg
    rw [hrun]
    exact ⟨p.git, program, args, calls, hprefix, hcalls, .stopped hpasses hg hfailed hcrashed⟩

/-- A build meets its gates in order. It succeeds if it passes all of them, and
    fails for the stage of the first one that it does not pass, on the site that
    this gate leaves. Up to there it has asked for the first ones of the same
    three programs, and how it ended tells how many. -/
theorem runBuild_gates (env : BuildEnvironment) (job : Job) (id : BuildId) (site : Site) :
    let layout := Layout.of env.buildRoot job.profile job.repo id
    ∃ git program args calls,
      calls <+: [cloneCall git job layout, checkoutCall git job layout,
        configureCall program args layout] ∧
      (runBuild env job id site).2.calls = site.calls ++ calls ∧
      match runBuild env job id site with
      | (.ok built, left) =>
        ∃ p, Passes env job id Gate.all site p left ∧ built = ⟨id, layout, p.configured⟩ ∧
          calls.length = (if built.configured then 3 else 2) ∧
          (built.configured = false ↔ ConfigureBlank p.config job.profile)
      | (.error h, left) =>
        ∃ (g : Gate) (p : Progress) (reached stopped : Site),
          Passes env job id g.earlier site p reached ∧
          on (g.attempt env job id p) reached = (.error h, stopped) ∧
          left = { stopped with events := left.events } ∧
          ∀ e, h = .failed e → e.stage = g.stage ∧ CallCount e calls.length := by
  intro layout
  obtain ⟨git, program, args, calls, hprefix, hcalls, hended⟩ := exists_calls env job id site
  refine ⟨git, program, args, calls, hprefix, hcalls, ?_⟩
  generalize runBuild env job id site = ended at hended
  cases hended with
  | passed hpasses hlength hblank => exact ⟨_, hpasses, rfl, hlength, hblank⟩
  | stopped hpasses hg hfailed => exact ⟨_, _, _, _, hpasses, hg, rfl, hfailed⟩

end

end BuildServer.Build
