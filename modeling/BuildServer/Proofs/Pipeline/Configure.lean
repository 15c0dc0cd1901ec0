-- SUMMARY: What the configure command of a build runs, and that its words arrive as they were if they are quoted.
import BuildServer.Proofs.Bindings.Lookup
import BuildServer.Proofs.Pipeline.Gates
import BuildServer.Proofs.Pipeline.Independence
import BuildServer.Proofs.Settings.Loading
import BuildServer.Proofs.Text.Quoted
import BuildServer.Proofs.Text.Utf8

/-!
# The configure command

A build that passes all gates but the last one makes one more invocation at
most, and what it is depends on the configure command only: on its words after
expansion, and on where the first of them is found. The command is read three
times over, as a value of the build configuration, for tokens, and as a command
line. Words in single quotes come through all three as they are.
-/

namespace BuildServer.Build

open Settings (Assignment Block documentOf)

variable {env : BuildEnvironment} {job : Job} {id : BuildId}

/-! ## The last gate -/

/-- A build that gets to its last gate ends as this gate does. -/
theorem runBuild_of_passes {site reached : Site} {p : Progress}
    (h : Passes env job id Gate.configure.earlier site p reached) :
    ∃ events, runBuild env job id site =
      ((on (Gate.configure.attempt env job id p) reached).1.map fun p =>
          ⟨id, Layout.of env.buildRoot job.profile job.repo id, p.configured⟩,
        { (on (Gate.configure.attempt env job id p) reached).2 with events }) := by
  have hall : on (meet env job id .start Gate.all) site =
      on (Gate.configure.attempt env job id p) reached := by
    have hlast := on_meet_append h [.configure]
    rwa [meet_singleton] at hlast
  obtain ⟨events, hrun, -⟩ := runBuild_eq env job id site
  exact ⟨events, by rw [hrun, hall]⟩

/-- What there is to run with these words. -/
def configureCalls (env : BuildEnvironment) (layout : Layout) (fs : FileSystem) :
    Except StageError (Option (List String)) → List Invocation
  | .ok (some (tool :: args)) =>
    ((env.locate fs tool).map fun program => configureCall program args layout).toList
  | _ => []

theorem calls_configure (config : Settings) (b : Bindings) (layout : Layout) (s : Site) :
    (on (configure env config b job layout) s).2.calls = s.calls ++
      configureCalls env layout s.fs (configureWords config b job.profile) := by
  unfold configure
  match configureWords config b job.profile with
  | .error cause => simp [check_error, fail_bind, configureCalls]
  | .ok none => simp [check_ok, on_bind, configureCalls, -bind_pure_comp]
  | .ok (some []) => simp [check_ok, configureCalls]
  | .ok (some (tool :: args)) =>
    rw [check_ok, pure_bind, on_bind, on_inspect]
    cases hfound : env.locate s.fs tool with
    | none => simp [configureCalls, hfound]
    | some program =>
      have hrun : Asks (runChecked env .configure (configureCall program args layout))
          (Only .configure (fun _ => True) [configureCall program args layout]) :=
        .only_runChecked env _ (fun _ => trivial) fun _ => trivial
      have hcall : Asks (runChecked env .configure (configureCall program args layout) >>=
          fun _ => pure true) (Only .configure (fun _ => True) [configureCall program args layout]) :=
        hrun.only_bind fun _ => .only_pure true
      obtain ⟨calls, hcalls, rfl, -⟩ := hcall s
      rw [configureCalls, hfound]
      exact hcalls

theorem calls_attempt_configure (p : Progress) (s : Site) :
    (on (Gate.configure.attempt env job id p) s).2.calls = s.calls ++
      configureCalls env (Layout.of env.buildRoot job.profile job.repo id) s.fs
        (configureWords p.config p.bindings job.profile) := by
  rw [← calls_configure, Gate.attempt, on_bind]
  generalize on (configure env p.config p.bindings job _) s = r
  obtain ⟨_ | _, s'⟩ := r <;> rfl

/-- The calls of a build that gets to its last gate. -/
theorem calls_of_passes {site reached : Site} {p : Progress}
    (h : Passes env job id Gate.configure.earlier site p reached) :
    (runBuild env job id site).2.calls = reached.calls ++
      configureCalls env (Layout.of env.buildRoot job.profile job.repo id) reached.fs
        (configureWords p.config p.bindings job.profile) := by
  obtain ⟨events, hrun⟩ := runBuild_of_passes h
  rw [hrun, ← calls_attempt_configure]

/-- The words of a command are those of its expansion. -/
theorem configureWords_of_expand {config : Settings} {b : Bindings} {profile command expanded : String}
    (hcommand : config.get? (configureKey profile) = some command)
    (hblank : command.toList.all Text.isBlank = false) (hexpand : b.expand command = .ok expanded) :
    configureWords config b profile = match Text.splitQuoted expanded with
      | none => .error (.openQuote expanded)
      | some words => .ok (some words) := by
  have hrequired : config.required .text (configureKey profile) = .ok command := by
    rw [Settings.required, hcommand]
    rfl
  simp only [configureWords, hrequired, mapError_ok, hexpand, hblank, bind, Except.bind]
  cases Text.splitQuoted expanded <;> rfl

/-! ## Build configurations -/

/-- The section of a profile with a configure command. -/
def commandBlock (profile command : String) : Block :=
  ⟨profile, [⟨"cmd_configure", command⟩]⟩

/-- A build configuration with a configure command and nothing else. -/
def commandConfig (profile command : String) : String :=
  "[" ++ profile ++ "]\ncmd_configure = " ++ command

theorem commandConfig_eq (profile command : String) :
    commandConfig profile command ++ "\n" = (documentOf [] [commandBlock profile command]).text := by
  rw [← String.toList_inj]
  simp [commandConfig, commandBlock, documentOf, Ini.Document.text, Ini.Item.line, Assignment.item]

/-- A text that does not begin with a byte order mark is read from a file as it is. -/
theorem fileText_utf8Encode {text : String} (h : text.toList.head? ≠ some '\uFEFF') :
    Settings.fileText (Text.utf8Encode text) = .ok text := by
  rw [Settings.fileText, Text.utf8Decode?_utf8Encode]
  dsimp only
  split
  · next hmark => simp [hmark] at h
  · rfl

/-- The configure command is read from the build configuration as it was written. -/
theorem load_commandConfig {fs : FileSystem} {role : FileRole} {path : String} {place : Place}
    {mode : Nat} {profile text command : String} (hname : Ini.IsName profile)
    (hvalue : Ini.IsValue command)
    (htext : text = commandConfig profile command ∨ text = commandConfig profile command ++ "\n")
    (hfile : fs.stat path = .ok (place, .file (Text.utf8Encode text) mode)) :
    ∃ config, Settings.load fs role path = .ok config ∧
      config.get? (configureKey profile) = some command := by
  have hkey : Ini.IsKey "cmd_configure" := by decide
  have hwritable : ∀ b ∈ [commandBlock profile command], b.Writable := by
    simp only [List.mem_singleton, forall_eq]
    refine ⟨hname, ?_⟩
    simp only [commandBlock, List.mem_singleton, forall_eq]
    exact ⟨hkey, hvalue⟩
  have hread : Ini.Document.ofText text = .ok (documentOf [] [commandBlock profile command]) := by
    refine Ini.Document.ofText_text (Settings.writable_documentOf (by simp) hwritable) ?_
    rw [← commandConfig_eq]
    obtain rfl | rfl := htext
    · exact .inr rfl
    · exact .inl rfl
  have hmark : text.toList.head? ≠ some '\uFEFF' := by
    obtain rfl | rfl := htext <;> simp [commandConfig]
  refine ⟨.ofDocument (documentOf [] [commandBlock profile command]), ?_, ?_⟩
  · rw [Settings.load_of_fileText hfile (fileText_utf8Encode hmark), Settings.ofText, hread]
    rfl
  · rw [Settings.get?, Settings.ofDocument, Settings.flatten_documentOf, Settings.getElem?_mapOf]
    have hfull : profile ++ "." ++ "cmd_configure" = configureKey profile := by
      rw [String.append_assoc]
      rfl
    simp [Settings.written, commandBlock, hfull]

theorem passes_readConfig {site reached : Site} {p : Progress} {config : Settings}
    (h : Passes env job id Gate.readConfig.earlier site p reached)
    (hload : Settings.load reached.fs configRole
      (Path.join (Layout.of env.buildRoot job.profile job.repo id).sources job.config) = .ok config) :
    Passes env job id Gate.configure.earlier site { p with config } reached := by
  have hread := on_meet_append h [.readConfig]
  rw [meet_singleton] at hread
  refine hread.trans ?_
  simp [Gate.attempt, on_bind, loadConfig, hload, mapError_ok, check_ok, -bind_pure_comp]

/-! ## Quoted words -/

/-- A command line with each word in single quotes. -/
def quotedLine (words : List String) : String :=
  " ".intercalate (words.map Text.quoted)

theorem mem_quotedLine {words : List String} {c : Char} (h : c ∈ (quotedLine words).toList) :
    c = ' ' ∨ c = '\'' ∨ c = '\\' ∨ ∃ w ∈ words, c ∈ w.toList := by
  obtain hspace | ⟨v, hv, hc⟩ := Text.mem_intercalate h
  · exact .inl hspace
  · obtain ⟨w, hw, rfl⟩ := List.mem_map.mp hv
    obtain hquote | hescape | hc := Text.mem_quoted hc
    · exact .inr (.inl hquote)
    · exact .inr (.inr (.inl hescape))
    · exact .inr (.inr (.inr ⟨w, hw, hc⟩))

theorem isValue_quotedLine {w : String} {ws : List String}
    (h : ∀ v ∈ w :: ws, ∀ c ∈ v.toList, c ≠ '\n' ∧ c ≠ '\r') :
    Ini.IsValue (quotedLine (w :: ws)) := by
  obtain ⟨hhead, hlast⟩ := Text.quoted_ends w ws
  rw [← quotedLine] at hhead hlast
  refine ⟨Text.Bare.trim_eq ⟨?_, ?_⟩, fun c hc => ?_, ?_⟩
  · rw [hhead]
    rintro _ ⟨⟩
    decide
  · rw [hlast]
    rintro _ ⟨⟩
    decide
  · obtain rfl | rfl | rfl | ⟨v, hv, hc⟩ := mem_quotedLine hc
    · rfl
    · rfl
    · rfl
    · have hbreaks := h v hv c hc
      simp [Ini.isBreak, hbreaks]
  · obtain ⟨cs, hcs⟩ := List.getLast?_eq_some_iff.mp hlast
    simp [Ini.endsOpen, hcs]

/-- Quoted words are the words of the configure command. -/
theorem configureWords_quotedLine {config : Settings} {b : Bindings} {profile w : String}
    {ws : List String} (hsigns : ∀ v ∈ w :: ws, '@' ∉ v.toList)
    (hcommand : config.get? (configureKey profile) = some (quotedLine (w :: ws))) :
    configureWords config b profile = .ok (some (w :: ws)) := by
  have hblank : (quotedLine (w :: ws)).toList.all Text.isBlank = false := by
    obtain ⟨cs, hcs⟩ := List.head?_eq_some_iff.mp (Text.quoted_ends w ws).1
    rw [quotedLine, hcs, List.all_cons]
    rfl
  have hsign : '@' ∉ (quotedLine (w :: ws)).toList := by
    intro hmem
    obtain h | h | h | ⟨v, hv, h⟩ := mem_quotedLine hmem
    · exact absurd h (by decide)
    · exact absurd h (by decide)
    · exact absurd h (by decide)
    · exact hsigns v hv h
  rw [configureWords_of_expand hcommand hblank (Bindings.expand_of_no_sign hsign), quotedLine,
    Text.splitQuoted_quoted]

/-- The words of the configure command arrive as they are if they are quoted: if the
    locator finds the first one, a build that has got to its configuration runs it,
    once, with exactly the others as arguments, in the directory for binaries. -/
theorem configure_quoted {site reached : Site} {p : Progress} {first program text : String}
    {words : List String} {place : Place} {mode : Nat}
    (hpasses : Passes env job id Gate.readConfig.earlier site p reached)
    (hname : Ini.IsName job.profile)
    (hwords : ∀ w ∈ first :: words, ∀ c ∈ w.toList, c ≠ '@' ∧ c ≠ '\n' ∧ c ≠ '\r')
    (htext : text = commandConfig job.profile (quotedLine (first :: words)) ∨
      text = commandConfig job.profile (quotedLine (first :: words)) ++ "\n")
    (hfile : reached.fs.stat
        (Path.join (Layout.of env.buildRoot job.profile job.repo id).sources job.config) =
      .ok (place, .file (Text.utf8Encode text) mode))
    (hfound : env.locate reached.fs first = some program) :
    let call : Invocation :=
      ⟨program, words, some (Layout.of env.buildRoot job.profile job.repo id).binaries⟩
    ∃ q, Passes env job id Gate.configure.earlier site q reached ∧
      (on (Gate.configure.attempt env job id q) reached).2.calls = reached.calls ++ [call] ∧
      (runBuild env job id site).2.calls = reached.calls ++ [call] := by
  intro call
  have hvalue : Ini.IsValue (quotedLine (first :: words)) :=
    isValue_quotedLine fun w hw c hc => (hwords w hw c hc).2
  obtain ⟨config, hload, hcommand⟩ := load_commandConfig hname hvalue htext hfile
  have hreached := passes_readConfig hpasses hload
  have hsigns : ∀ w ∈ first :: words, '@' ∉ w.toList :=
    fun w hw hmem => (hwords w hw '@' hmem).1 rfl
  have hcall : configureCalls env (Layout.of env.buildRoot job.profile job.repo id) reached.fs
      (configureWords config p.bindings job.profile) = [call] := by
    rw [configureWords_quotedLine hsigns hcommand, configureCalls, hfound]
    rfl
  refine ⟨_, hreached, ?_, ?_⟩
  · rw [calls_attempt_configure, hcall]
  · rw [calls_of_passes hreached, hcall]

theorem passes_of_isOk {gates : List Gate} {site : Site}
    (h : (on (meet env job id .start gates) site).1.isOk) :
    ∃ p, Passes env job id gates site p (on (meet env job id .start gates) site).2 := by
  cases hmeet : on (meet env job id .start gates) site with
  | mk r reached =>
    rw [hmeet] at h
    cases r with
    | error h' => cases h
    | ok p => exact ⟨p, hmeet⟩

/-- Sources that have nothing but a build configuration with this command are fetched. -/
def commandEnv (root command : String) : BuildEnvironment where
  buildRoot := "/" ++ root
  bindingsFile := "/m"
  locate := locateIn "/usr/bin"
  run := fetching fun _ fs =>
    (fs.put (ownPlace [root] (jobOf "p") firstId) "repo" .directory).put
      (ownPlace [root] (jobOf "p") firstId ++ ["repo"]) "c" (textFile (commandConfig "p" command))

/-- What quotes, separates, escapes or begins a comment, and an empty word. -/
theorem configure_quoted_signs :
    (buildOn (commandEnv "b" (quotedLine ["it's", "a b", "", "\\;#=\""])) (jobOf "p") firstId
      vacantRoot).2.calls.getLast? =
      some ⟨"/usr/bin/it's", ["a b", "", "\\;#=\""], some "/b/p/r/0a1b2c3d/build"⟩ := by
  have hok : (on (meet (commandEnv "b" (quotedLine ["it's", "a b", "", "\\;#=\""])) (jobOf "p") firstId
      .start Gate.readConfig.earlier) ⟨vacantRoot, [], []⟩).1.isOk := by decide +kernel
  obtain ⟨p, hpasses⟩ := passes_of_isOk hok
  have hwords : ∀ w ∈ "it's" :: ["a b", "", "\\;#=\""], ∀ c ∈ w.toList,
      c ≠ '@' ∧ c ≠ '\n' ∧ c ≠ '\r' := by simp
  obtain ⟨q, -, -, hcalls⟩ := configure_quoted hpasses (by decide) hwords (.inl rfl)
    (ok_of_toOption (by decide +kernel) :
      _ = Except.ok (firstPlace ++ ["repo", "c"], Node.file _ FileSystem.newFileMode)) rfl
  rw [buildOn, hcalls, List.getLast?_append]
  decide +kernel

end BuildServer.Build
