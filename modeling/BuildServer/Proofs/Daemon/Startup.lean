-- SUMMARY: Initialization step by step: which step fails with which error, what a failure leaves, and what success gives.
import BuildServer.Daemon.Service
import BuildServer.Proofs.Control.Listening
import BuildServer.Proofs.Daemon.Life
import BuildServer.Proofs.Registry.Sections

/-!
# Startup step by step

Six steps follow one another, and each needs what the ones before it have given.
Initialization fails at the first step that fails, with the error of that step. A
failure leaves everything as it was, the server and the file system. If no step
fails, the server listens on a pipe, and its builds are made in an existing
directory under the path that leads to it without links.
-/

namespace BuildServer

open Control (Channel ChannelError Listens)

namespace Startup

/-! ## The build root -/

/-- What making sure of a build root gives. -/
inductive Roots (fs : FileSystem) (path : String) : Except DaemonError String → Prop where
  | missing (hstat : fs.stat path = .error .notFound) :
      Roots fs path (.error (.buildRootNotFound path))
  | unreachable {e : IoError} (hstat : fs.stat path = .error e) (he : e ≠ .notFound) :
      Roots fs path (.error (.io path e))
  | notADirectory {place : Place} {node : Node} (hstat : fs.stat path = .ok (place, node))
      (hnode : node ≠ .directory) : Roots fs path (.error (.notADirectory path))
  /-- The directory is there, but the path without links is none that could be followed. -/
  | unfollowable {place : Place} {e : IoError} (hstat : fs.stat path = .ok (place, .directory))
      (hpath : fs.stat place.path = .error e) : Roots fs path (.error (.io path e))
  | directory {place : Place} {found : Place × Node} (hstat : fs.stat path = .ok (place, .directory))
      (hpath : fs.stat place.path = .ok found) : Roots fs path (.ok place.path)

section Roots

variable {fs : FileSystem} {path : String} {r : Except DaemonError String}

theorem Roots.canonicalDirectory_eq (h : Roots fs path r) : Prepared.canonicalDirectory fs path = r := by
  rw [Prepared.canonicalDirectory]
  cases h with
  | missing hstat =>
    rw [hstat]
  | @unreachable e hstat he =>
    rw [hstat]
    cases e with
    | notFound => exact absurd rfl he
    | _ => rfl
  | @notADirectory place node hstat hnode =>
    rw [hstat]
    cases node with
    | directory => exact absurd rfl hnode
    | _ => rfl
  | unfollowable hstat hpath =>
    rw [hstat]
    dsimp only
    rw [FileSystem.canonicalize_eq hstat, hpath]
    rfl
  | directory hstat hpath =>
    rw [hstat]
    dsimp only
    rw [FileSystem.canonicalize_eq hstat, hpath]
    rfl

theorem roots_canonicalDirectory (fs : FileSystem) (path : String) :
    Roots fs path (Prepared.canonicalDirectory fs path) := by
  have roots {r : Except DaemonError String} (h : Roots fs path r) :
      Roots fs path (Prepared.canonicalDirectory fs path) := by rwa [h.canonicalDirectory_eq]
  rcases hstat : fs.stat path with e | ⟨place, node⟩
  · by_cases he : e = .notFound
    · subst he
      exact roots (.missing hstat)
    · exact roots (.unreachable hstat he)
  · by_cases hnode : node = .directory
    · subst hnode
      rcases hpath : fs.stat place.path with e | found
      · exact roots (.unfollowable hstat hpath)
      · exact roots (.directory hstat hpath)
    · exact roots (.notADirectory hstat hnode)

end Roots

/-! ## Steps -/

/-- What has to succeed, in this order. -/
inductive Step where
  | configFile
  | configKeys
  | registryFile
  | registryEntries
  | buildRoot
  | channel
  deriving DecidableEq, Repr

/-- The main settings file gives this configuration. -/
def Configured (path : String) (fs : FileSystem) (config : DaemonConfig) : Prop :=
  ∃ settings, Settings.Loads fs DaemonConfig.fileRole path (.ok settings) ∧
    DaemonConfig.ofSettings settings = .ok config

/-- The registry file gives this registry. -/
def Registered (fs : FileSystem) (path : String) (registry : Registry) : Prop :=
  ∃ entries, Settings.Loads fs Registry.fileRole path (.ok entries) ∧
    Registry.ofSettings entries = .ok registry

/-- The steps before this one succeed, and this one fails with the error. -/
inductive Halts (path : String) (fs : FileSystem) : Step → DaemonError → Prop where
  | configFile {e : SettingsError} (h : Settings.Loads fs DaemonConfig.fileRole path (.error e)) :
      Halts path fs .configFile (.settings e)
  | configKeys {settings : Settings} {e : SettingsError}
      (hsettings : Settings.Loads fs DaemonConfig.fileRole path (.ok settings))
      (h : DaemonConfig.ofSettings settings = .error e) : Halts path fs .configKeys (.settings e)
  | registryFile {config : DaemonConfig} {e : SettingsError} (hconfig : Configured path fs config)
      (h : Settings.Loads fs Registry.fileRole config.registryFile (.error e)) :
      Halts path fs .registryFile (.settings e)
  | registryEntries {config : DaemonConfig} {entries : Settings} {e : SettingsError}
      (hconfig : Configured path fs config)
      (hentries : Settings.Loads fs Registry.fileRole config.registryFile (.ok entries))
      (h : Registry.ofSettings entries = .error e) : Halts path fs .registryEntries (.settings e)
  | buildRoot {config : DaemonConfig} {registry : Registry} {e : DaemonError}
      (hconfig : Configured path fs config) (hregistry : Registered fs config.registryFile registry)
      (h : Roots fs config.buildRoot (.error e)) : Halts path fs .buildRoot e
  | channel {config : DaemonConfig} {registry : Registry} {root : String} {e : ChannelError}
      {fs' : FileSystem} (hconfig : Configured path fs config)
      (hregistry : Registered fs config.registryFile registry)
      (hroot : Roots fs config.buildRoot (.ok root)) (h : Listens fs config.fifo (.error e) fs') :
      Halts path fs .channel (.channel e)

/-- Every step succeeds. -/
structure Completes (path : String) (fs : FileSystem) (config : DaemonConfig) (prepared : Prepared)
    (fs' : FileSystem) : Prop where
  configured : Configured path fs config
  registered : Registered fs config.registryFile prepared.registry
  rooted : Roots fs config.buildRoot (.ok prepared.config.buildRoot)
  listens : Listens fs config.fifo (.ok prepared.channel) fs'
  /-- Only the build root is written otherwise than it has been configured. -/
  config_eq : prepared.config = { config with buildRoot := prepared.config.buildRoot }

variable {path : String} {fs fs' : FileSystem} {config : DaemonConfig} {registry : Registry}
variable {prepared : Prepared}

theorem readFiles_of_settings {settings : Settings}
    (h : Settings.Loads fs DaemonConfig.fileRole path (.ok settings)) :
    Prepared.readFiles fs path = do
      let config ← (DaemonConfig.ofSettings settings).mapError .settings
      let (entries, registry) ← (Registry.load fs config.registryFile).mapError .settings
      return (config, entries, registry) := by
  rw [Prepared.readFiles, h.load_eq]
  rfl

theorem readFiles_of_configured (h : Configured path fs config) :
    Prepared.readFiles fs path = do
      let (entries, registry) ← (Registry.load fs config.registryFile).mapError .settings
      return (config, entries, registry) := by
  obtain ⟨settings, hsettings, hconfig⟩ := h
  rw [readFiles_of_settings hsettings, hconfig]
  rfl

theorem readFiles_of_registered (hconfig : Configured path fs config)
    (hregistry : Registered fs config.registryFile registry) :
    ∃ entries, Prepared.readFiles fs path = .ok (config, entries, registry) := by
  obtain ⟨entries, hentries, hregistry⟩ := hregistry
  refine ⟨entries, ?_⟩
  rw [readFiles_of_configured hconfig, Registry.load_of_loads hentries, hregistry]
  rfl

theorem of_readFiles_error {e : DaemonError} (h : Prepared.readFiles fs path = .error e) :
    Startup.of path fs = ⟨.error e, fs, []⟩ := by
  rw [Startup.of, h]

/-- The first step that fails decides, and nothing has changed then. -/
theorem Halts.of_eq {step : Step} {e : DaemonError} (h : Halts path fs step e)
    (hdangling : ∀ config, Configured path fs config → ¬ fs.Dangling config.fifo) :
    ∃ events, Startup.of path fs = ⟨.error e, fs, events⟩ := by
  cases h with
  | configFile h =>
    refine ⟨[], of_readFiles_error ?_⟩
    rw [Prepared.readFiles, h.load_eq]
    rfl
  | configKeys hsettings h =>
    refine ⟨[], of_readFiles_error ?_⟩
    rw [readFiles_of_settings hsettings, h]
    rfl
  | registryFile hconfig h =>
    refine ⟨[], of_readFiles_error ?_⟩
    rw [readFiles_of_configured hconfig, Registry.load, h.load_eq]
    rfl
  | registryEntries hconfig hentries h =>
    refine ⟨[], of_readFiles_error ?_⟩
    rw [readFiles_of_configured hconfig, Registry.load_of_loads hentries, h]
    rfl
  | buildRoot hconfig hregistry h =>
    obtain ⟨entries, hfiles⟩ := readFiles_of_registered hconfig hregistry
    refine ⟨Registry.events entries, ?_⟩
    rw [Startup.of, hfiles]
    dsimp only
    rw [h.canonicalDirectory_eq]
  | channel hconfig hregistry hroot h =>
    obtain ⟨entries, hfiles⟩ := readFiles_of_registered hconfig hregistry
    refine ⟨Registry.events entries, ?_⟩
    rw [Startup.of, hfiles]
    dsimp only
    rw [hroot.canonicalDirectory_eq]
    dsimp only
    rw [h.listen_eq (hdangling _ hconfig), h.unchanged]

theorem Completes.of_eq (h : Completes path fs config prepared fs')
    (hdangling : ¬ fs.Dangling config.fifo) :
    ∃ events, Startup.of path fs = ⟨.ok prepared, fs', events⟩ := by
  obtain ⟨entries, hfiles⟩ := readFiles_of_registered h.configured h.registered
  refine ⟨Registry.events entries, ?_⟩
  rw [Startup.of, hfiles]
  dsimp only
  rw [h.rooted.canonicalDirectory_eq]
  dsimp only
  rw [h.listens.listen_eq hdangling]
  dsimp only
  rw [← h.config_eq]

/-- Either a step fails, or all steps succeed. -/
theorem halts_or_completes (path : String) (fs : FileSystem)
    (hdangling : ∀ config, Configured path fs config → ¬ fs.Dangling config.fifo) :
    (∃ step e, Halts path fs step e) ∨ ∃ config prepared fs', Completes path fs config prepared fs' := by
  obtain ⟨e | settings, hfile⟩ : ∃ r, Settings.Loads fs DaemonConfig.fileRole path r :=
    ⟨_, Settings.loads_load ..⟩
  · exact .inl ⟨_, _, .configFile hfile⟩
  rcases hkeys : DaemonConfig.ofSettings settings with e | config
  · exact .inl ⟨_, _, .configKeys hfile hkeys⟩
  have hconfig : Configured path fs config := ⟨settings, hfile, hkeys⟩
  obtain ⟨e | entries, hentries⟩ : ∃ r, Settings.Loads fs Registry.fileRole config.registryFile r :=
    ⟨_, Settings.loads_load ..⟩
  · exact .inl ⟨_, _, .registryFile hconfig hentries⟩
  rcases hregistry : Registry.ofSettings entries with e | registry
  · exact .inl ⟨_, _, .registryEntries hconfig hentries hregistry⟩
  have hregistered : Registered fs config.registryFile registry := ⟨entries, hentries, hregistry⟩
  obtain ⟨e | root, hroot⟩ : ∃ r, Roots fs config.buildRoot r := ⟨_, roots_canonicalDirectory ..⟩
  · exact .inl ⟨_, _, .buildRoot hconfig hregistered hroot⟩
  obtain ⟨e | channel, fs', hlistens⟩ : ∃ r fs', Listens fs config.fifo r fs' :=
    ⟨_, _, Control.listens_listen (hdangling config hconfig)⟩
  · exact .inl ⟨_, _, .channel hconfig hregistered hroot hlistens⟩
  · exact .inr ⟨config, ⟨channel, { config with buildRoot := root }, registry⟩, fs',
      hconfig, hregistered, hroot, hlistens, rfl⟩

/-- What the server has in hand once every step has succeeded. -/
structure Serviceable (fs : FileSystem) (config : DaemonConfig) (prepared : Prepared)
    (fs' : FileSystem) : Prop where
  /-- The server holds the pipe at the path of its channel open. -/
  pipe : ∃ pipe, 0 < pipe.readers ∧ fs'.stat config.fifo = .ok (prepared.channel.place, .fifo pipe)
  /-- Its build root is the path of the directory that the configured one leads to. Unless the
      walk to it begins in a directory that is not there, the path is free of links. -/
  root : ∃ place, prepared.config.buildRoot = place.path ∧
    fs'.stat config.buildRoot = .ok (place, .directory) ∧
    (fs.Canonical (fs.origin config.buildRoot) →
      fs'.Canonical place ∧ fs'.stat place.path = .ok (place, .directory))

theorem Completes.serviceable (h : Completes path fs config prepared fs')
    (hdangling : ¬ fs.Dangling config.fifo) : Serviceable fs config prepared fs' where
  pipe := h.listens.stat_path hdangling
  root := by
    generalize hroot : prepared.config.buildRoot = root
    have hrooted := h.rooted
    rw [hroot] at hrooted
    cases hrooted with
    | @directory place found hstat hpath =>
      refine ⟨place, rfl, h.listens.stat_directory hdangling hstat, fun horigin => ?_⟩
      have hplace : fs.Canonical place := .of_stat horigin hstat
      obtain rfl := hplace.stat_path hpath
      exact ⟨h.listens.canonical hdangling hplace, h.listens.stat_directory hdangling hpath⟩

end Startup

namespace Daemon

open Startup (Configured Halts Completes Serviceable)

variable {d : Daemon} {path : String} {fs fs' : FileSystem} {events : List Registry.Event}

theorem init_of_error (hphase : d.phase = .uninitialized) {e : DaemonError}
    (h : Startup.of path fs = ⟨.error e, fs', events⟩) : d.init path fs = ⟨.error e, d, fs', events⟩ := by
  rw [init, if_pos hphase, h]

theorem init_of_ok (hphase : d.phase = .uninitialized) {prepared : Prepared}
    (h : Startup.of path fs = ⟨.ok prepared, fs', events⟩) :
    d.init path fs =
      ⟨.ok (), { d with phase := .initialized, prepared := some prepared }, fs', events⟩ := by
  rw [init, if_pos hphase, h]

/-- Two initializations tell the same, and what they leave differs in nothing but what may still
    be held ready after a failure. -/
structure SameAnswer (i j : Initialization) : Prop where
  result : i.result = j.result
  fs : i.fs = j.fs
  events : i.events = j.events
  state : i.daemon.state = j.daemon.state
  flags : i.daemon.flags = j.daemon.flags
  daemon : i.result = .ok () → i.daemon = j.daemon

/-- Nothing about a server counts for its first initialization but its flags, which are kept. -/
theorem sameAnswer_fresh (hphase : d.phase = .uninitialized) (path : String) (fs : FileSystem) :
    SameAnswer (d.init path fs) ({ new with flags := d.flags }.init path fs) := by
  rcases hstartup : Startup.of path fs with ⟨e | prepared, fs', events⟩
  · rw [init_of_error hphase hstartup, init_of_error rfl hstartup]
    refine ⟨rfl, rfl, rfl, ?_, rfl, nofun⟩
    simp [state, hphase, new]
  · rw [init_of_ok hphase hstartup, init_of_ok rfl hstartup]
    exact ⟨rfl, rfl, rfl, rfl, rfl, fun _ => rfl⟩

/-- A service builds under the build root that was prepared for it. -/
theorem buildRoot_of_start? {prepared : Prepared} {flags : Control.Flags} {env : BuildEnvironment}
    {ready : BuildRun → Bool} {site : Site} {supply : BuildId.Supply} {service : Service}
    (h : Service.start? prepared flags env ready site supply = some service) :
    service.env.buildRoot = prepared.config.buildRoot := by
  rw [Service.start?] at h
  obtain ⟨dispatcher, -, hservice⟩ := Option.bind_eq_some_iff.mp h
  obtain rfl := Option.some.inj hservice
  rfl

section Exact

variable (hphase : d.phase = .uninitialized)
variable (hdangling : ∀ config, Configured path fs config → ¬ fs.Dangling config.fifo)

include hphase hdangling

theorem init_of_halts {step : Startup.Step} {e : DaemonError} (h : Halts path fs step e) :
    ∃ events, d.init path fs = ⟨.error e, d, fs, events⟩ :=
  (h.of_eq hdangling).imp fun _ hstartup => init_of_error hphase hstartup

theorem init_of_completes {config : DaemonConfig} {prepared : Prepared}
    (h : Completes path fs config prepared fs') :
    ∃ events, d.init path fs =
      ⟨.ok (), { d with phase := .initialized, prepared := some prepared }, fs', events⟩ :=
  (h.of_eq (hdangling config h.configured)).imp fun _ hstartup => init_of_ok hphase hstartup

theorem halts_of_init_eq_error {e : DaemonError} (h : (d.init path fs).result = .error e) :
    (∃ step, Halts path fs step e) ∧ (d.init path fs).daemon = d ∧ (d.init path fs).fs = fs := by
  rcases Startup.halts_or_completes path fs hdangling with
    ⟨step, e', hhalts⟩ | ⟨config, prepared, fs', hcompletes⟩
  · obtain ⟨events, hinit⟩ := init_of_halts hphase hdangling hhalts
    rw [hinit] at h ⊢
    obtain rfl : e' = e := Except.error.inj h
    exact ⟨⟨step, hhalts⟩, rfl, rfl⟩
  · obtain ⟨events, hinit⟩ := init_of_completes hphase hdangling hcompletes
    rw [hinit] at h
    cases h

theorem completes_of_init_eq_ok (h : (d.init path fs).result = .ok ()) :
    ∃ config prepared fs', Completes path fs config prepared fs' := by
  rcases Startup.halts_or_completes path fs hdangling with ⟨step, e, hhalts⟩ | hcompletes
  · obtain ⟨events, hinit⟩ := init_of_halts hphase hdangling hhalts
    rw [hinit] at h
    cases h
  · exact hcompletes

end Exact

/-- Initialization fails at the first step that fails, with the error of that step, and changes
    nothing then. The server can be initialized later as if it were a new one with the same flags.
    If no step fails, initialization succeeds, and only then. -/
theorem init_exact (hphase : d.phase = .uninitialized)
    (hdangling : ∀ config, Configured path fs config → ¬ fs.Dangling config.fifo) :
    (∀ e, (d.init path fs).result = .error e ↔ ∃ step, Halts path fs step e) ∧
    (∀ e, (d.init path fs).result = .error e →
      (d.init path fs).daemon = d ∧ (d.init path fs).fs = fs ∧
        ∀ path' fs', SameAnswer ((d.init path fs).daemon.init path' fs')
          ({ new with flags := d.flags }.init path' fs')) ∧
    ((d.init path fs).result = .ok () ↔
      ∃ config prepared fs', Completes path fs config prepared fs') ∧
    ∀ config prepared fs', Completes path fs config prepared fs' →
      (d.init path fs).daemon = { d with phase := .initialized, prepared := some prepared } ∧
      (d.init path fs).fs = fs' ∧ Serviceable fs config prepared fs' ∧
      ∀ flags env ready site supply service,
        Service.start? prepared flags env ready site supply = some service →
          service.env.buildRoot = prepared.config.buildRoot := by
  refine ⟨fun e => ⟨fun h => (halts_of_init_eq_error hphase hdangling h).1, ?_⟩, ?_,
    ⟨completes_of_init_eq_ok hphase hdangling, ?_⟩, ?_⟩
  · rintro ⟨step, hhalts⟩
    obtain ⟨events, hinit⟩ := init_of_halts hphase hdangling hhalts
    rw [hinit]
  · intro e h
    obtain ⟨-, hdaemon, hfs⟩ := halts_of_init_eq_error hphase hdangling h
    rw [hdaemon]
    exact ⟨rfl, hfs, sameAnswer_fresh hphase⟩
  · rintro ⟨config, prepared, fs', hcompletes⟩
    obtain ⟨events, hinit⟩ := init_of_completes hphase hdangling hcompletes
    rw [hinit]
  · intro config prepared fs' hcompletes
    obtain ⟨events, hinit⟩ := init_of_completes hphase hdangling hcompletes
    rw [hinit]
    refine ⟨rfl, rfl, hcompletes.serviceable (hdangling config hcompletes.configured), ?_⟩
    intro flags env ready site supply service
    exact buildRoot_of_start?

theorem fifo_of_configured_servable {config : DaemonConfig}
    (h : Configured "/s" Life.servable config) : config.fifo = "/f" := by
  obtain ⟨settings, hsettings, hconfig⟩ := h
  have hread : (((Settings.load Life.servable DaemonConfig.fileRole "/s").bind
      DaemonConfig.ofSettings).toOption.map (·.fifo)) = some "/f" := by decide +kernel
  rw [hsettings.load_eq, Except.bind, hconfig] at hread
  exact Option.some.inj hread

theorem init_exact_servable :
    Daemon.new.phase = .uninitialized ∧
      (∀ config, Configured "/s" Life.servable config → ¬ Life.servable.Dangling config.fifo) ∧
      ∃ config prepared fs', Completes "/s" Life.servable config prepared fs' ∧
        (Daemon.new.init "/s" Life.servable).fs = fs' ∧
        Serviceable Life.servable config prepared fs' := by
  have hdangling : ∀ config, Configured "/s" Life.servable config →
      ¬ Life.servable.Dangling config.fifo := by
    intro config hconfig hdangling
    rw [fifo_of_configured_servable hconfig] at hdangling
    exact absurd hdangling.2 (by decide +kernel)
  obtain ⟨-, -, hok, hcompletes⟩ := init_exact (d := Daemon.new) rfl hdangling
  obtain ⟨config, prepared, fs', h⟩ := hok.mp Life.init_servable
  obtain ⟨-, hfs, hserviceable, -⟩ := hcompletes config prepared fs' h
  exact ⟨rfl, hdangling, config, prepared, fs', h, hfs, hserviceable⟩

end Daemon

end BuildServer
