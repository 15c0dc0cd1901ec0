-- SUMMARY: The tokens that builds bind themselves: no bindings file has a say in them, and when each of them stays one argument.
import BuildServer.Proofs.Pipeline.Configure

/-!
# Own tokens

Every build binds five names itself, at three points on its way to the configure
command, and each time it replaces what the bindings file says about them. As
nothing before the configure command looks at the bindings, two bindings files
that differ in these names only cannot be told apart by what a build does.

A token is replaced before the command is split into words. It stays one argument
exactly if its value is a word that stands for itself.
-/

namespace BuildServer.Build

/-! ## Names and values -/

/-- The tokens that every build binds itself. -/
inductive OwnToken where
  | id
  | profile
  | repository
  | sources
  | binaries
  deriving DecidableEq, Repr

namespace OwnToken

def name : OwnToken → String
  | id => idName
  | profile => profileName
  | repository => repositoryName
  | sources => sourcesName
  | binaries => binariesName

/-- What a token stands for in a build. -/
def value (job : Job) (id : BuildId) (layout : Layout) : OwnToken → String
  | .id => id.text
  | profile => job.profile
  | repository => job.repo
  | sources => layout.sources
  | binaries => layout.binaries

/-- How a token is written in a command. -/
def sign (t : OwnToken) : String := "@" ++ t.name ++ "@"

theorem isKey {b : Bindings} {value : String} (t : OwnToken)
    (h : b.get? t.name = some value) : b.IsKey t.name.toList where
  ne_nil := by cases t <;> decide
  no_sign := by cases t <;> decide
  bound := by rw [String.ofList_toList, h]; rfl

end OwnToken

/-- A name that the bindings file decides about. -/
def Foreign (key : String) : Prop :=
  ∀ t : OwnToken, t.name ≠ key

/-- The bindings that a build has when it meets its last gate. -/
def ownBindings (b : Bindings) (job : Job) (id : BuildId) (layout : Layout) : Bindings :=
  ((bindJob b job id).insert sourcesName layout.sources).insert binariesName layout.binaries

section

variable {b b' : Bindings} {job : Job} {id : BuildId} {layout : Layout} {key : String}

theorem get?_ownBindings_own (b : Bindings) (t : OwnToken) :
    (ownBindings b job id layout).get? t.name = some (t.value job id layout) := by
  cases t <;>
    simp [ownBindings, bindJob, OwnToken.name, OwnToken.value, Bindings.get?_insert, idName,
      profileName, repositoryName, sourcesName, binariesName]

theorem get?_ownBindings_foreign (b : Bindings) (h : Foreign key) :
    (ownBindings b job id layout).get? key = b.get? key := by
  have hid : idName ≠ key := h .id
  have hprofile : profileName ≠ key := h .profile
  have hrepository : repositoryName ≠ key := h .repository
  have hsources : sourcesName ≠ key := h .sources
  have hbinaries : binariesName ≠ key := h .binaries
  simp [ownBindings, bindJob, Bindings.get?_insert, hid, hprofile, hrepository, hsources, hbinaries]

/-- What the bindings say about own tokens is lost. -/
theorem ownBindings_congr (h : ∀ key, Foreign key → b.get? key = b'.get? key) :
    ownBindings b job id layout = ownBindings b' job id layout := by
  refine Bindings.ext_get? fun key => ?_
  by_cases hforeign : Foreign key
  · rw [get?_ownBindings_foreign b hforeign, get?_ownBindings_foreign b' hforeign, h key hforeign]
  · obtain ⟨t, ht⟩ := Classical.not_forall.mp hforeign
    rw [← Classical.not_not.mp ht, get?_ownBindings_own, get?_ownBindings_own]

end

/-! ## The bindings file -/

/-- The bindings of a file that may be absent. -/
def bindingsOf : Option Settings → Bindings
  | some settings => Bindings.empty.extend settings
  | none => .empty

theorem get?_bindingsOf (loaded : Option Settings) (key : String) :
    (bindingsOf loaded).get? key = loaded.bind (·.get? key) := by
  cases loaded with
  | none => exact Bindings.get?_empty key
  | some settings => rw [bindingsOf, Bindings.get?_extend, Bindings.get?_empty, Option.or_none]; rfl

section

variable {env : BuildEnvironment} {job : Job} {id : BuildId}

theorem on_loadBindings (env : BuildEnvironment) {loaded : Option Settings} {s : Site}
    (h : Settings.loadOptional s.fs bindingsRole env.bindingsFile = .ok loaded) :
    ∃ events, on (loadBindings env) s = (.ok (bindingsOf loaded), { s with events }) := by
  rw [loadBindings, on_bind, on_inspect]
  dsimp only
  rw [h, mapError_ok, check_ok, pure_bind]
  cases loaded with
  | none => exact ⟨s.events ++ [.bindingsAbsent env.bindingsFile], rfl⟩
  | some settings => exact ⟨s.events, rfl⟩

theorem exists_of_on_loadBindings {b : Bindings} {s t : Site}
    (h : on (loadBindings env) s = (.ok b, t)) :
    ∃ loaded, Settings.loadOptional s.fs bindingsRole env.bindingsFile = .ok loaded ∧
      b = bindingsOf loaded ∧ t.fs = s.fs := by
  cases hload : Settings.loadOptional s.fs bindingsRole env.bindingsFile with
  | error e => simp [loadBindings, on_bind, hload, mapError_error, check_error] at h
  | ok loaded =>
    obtain ⟨events, hrun⟩ := on_loadBindings env hload
    rw [hrun] at h
    cases h
    exact ⟨loaded, rfl, rfl, rfl⟩

/-! ## The way to the last gate -/

theorem exists_of_on_return {α β : Type} {b : Build α} {f : α → β} {s t : Site} {c : β}
    (h : on (b >>= fun a => pure (f a)) s = (.ok c, t)) : ∃ a, on b s = (.ok a, t) ∧ c = f a := by
  rw [on_bind] at h
  cases hb : on b s with
  | mk r s' =>
    rw [hb] at h
    cases r with
    | error e => cases h
    | ok a =>
      cases h
      exact ⟨a, rfl, rfl⟩

/-- What a gate binds, apart from the one that reads the bindings file. -/
def Gate.bind (layout : Layout) (b : Bindings) : Gate → Bindings
  | checkOut => b.insert sourcesName layout.sources
  | createBinaries => b.insert binariesName layout.binaries
  | _ => b

theorem bindings_attempt {g : Gate} (hg : g ≠ .readBindings) {p q : Progress} {s t : Site}
    (h : on (g.attempt env job id p) s = (.ok q, t)) :
    q.bindings = g.bind (Layout.of env.buildRoot job.profile job.repo id) p.bindings := by
  cases g with
  | readBindings => exact absurd rfl hg
  | acceptRevision =>
    by_cases hdash : job.revision.toList.head? = some '-'
    · simp only [Gate.attempt, hdash, if_true, fail_bind] at h
      cases h
    · simp only [Gate.attempt, hdash, if_false] at h
      cases h
      rfl
  | _ =>
    obtain ⟨a, -, rfl⟩ := exists_of_on_return h
    rfl

theorem bindings_meet {gates : List Gate} (hgates : .readBindings ∉ gates) {p q : Progress}
    {s t : Site} (h : on (meet env job id p gates) s = (.ok q, t)) :
    q.bindings =
      gates.foldl (Gate.bind (Layout.of env.buildRoot job.profile job.repo id)) p.bindings := by
  induction gates generalizing p s with
  | nil =>
    cases h
    rfl
  | cons g gates ih =>
    rw [List.mem_cons, not_or] at hgates
    rw [meet_cons, on_bind] at h
    cases hg : on (g.attempt env job id p) s with
    | mk r s' =>
      rw [hg] at h
      cases r with
      | error e => cases h
      | ok p' => rw [ih hgates.2 h, List.foldl_cons, bindings_attempt (Ne.symm hgates.1) hg]

/-- The file system that a build reads the bindings file from. -/
def openingFs (env : BuildEnvironment) (job : Job) (id : BuildId) (fs : FileSystem) : FileSystem :=
  (FileSystem.ensureDir (Layout.of env.buildRoot job.profile job.repo id).toplevel fs).2

theorem on_findGit_fs (env : BuildEnvironment) (job : Job) (s : Site) :
    (on (findGit env job) s).2.fs = s.fs := by
  rw [findGit, on_bind, on_inspect]
  cases env.locate s.fs gitTool <;> rfl

theorem fs_of_passes {site reached : Site} {p : Progress}
    (h : Passes env job id Gate.readBindings.earlier site p reached) :
    reached.fs = openingFs env job id site.fs := by
  obtain ⟨q, found, hfound, hcreate⟩ := passes_concat [.findGit] h
  rw [Passes, meet_singleton] at hfound
  obtain ⟨git, hgit, -⟩ := exists_of_on_return hfound
  obtain ⟨_, hprovision, -⟩ := exists_of_on_return hcreate
  have hfs := on_findGit_fs env job site
  have hopened := on_provision_fs .provisionToplevel
    (Layout.of env.buildRoot job.profile job.repo id).toplevel found
  rw [hgit] at hfs
  rw [hprovision, hfs] at hopened
  exact hopened

/-- The bindings of a build that gets to its last gate. -/
theorem bindings_of_passes {site reached : Site} {p : Progress}
    (h : Passes env job id Gate.configure.earlier site p reached) :
    ∃ loaded, Settings.loadOptional (openingFs env job id site.fs) bindingsRole env.bindingsFile =
        .ok loaded ∧
      p.bindings = ownBindings (bindingsOf loaded) job id
        (Layout.of env.buildRoot job.profile job.repo id) := by
  -- The gate that reads the file is the only one whose bindings depend on it.
  obtain ⟨q, read, hread, hlater⟩ := passes_append
    (Gate.readBindings.earlier ++ [.readBindings])
    [.acceptRevision, .clone, .checkOut, .createBinaries, .readConfig] h
  obtain ⟨o, opened, hopened, hattempt⟩ := passes_concat _ hread
  obtain ⟨b, hload, rfl⟩ := exists_of_on_return hattempt
  obtain ⟨loaded, hloaded, rfl, -⟩ := exists_of_on_loadBindings hload
  rw [fs_of_passes hopened] at hloaded
  exact ⟨loaded, hloaded, bindings_meet (by decide) hlater⟩

end

/-! ## Runs that differ in their reports -/

/-- Results are the same, and sites are but for the reports on them. -/
structure Agree {α : Type} (r r' : Except Halt α × Site) : Prop where
  result : r.1 = r'.1
  fs : r.2.fs = r'.2.fs
  calls : r.2.calls = r'.2.calls

/-- What a step does has nothing to do with earlier reports. -/
def Blind {α : Type} (b : Build α) : Prop :=
  ∀ s s' : Site, s.fs = s'.fs → s.calls = s'.calls → Agree (on b s) (on b s')

theorem Agree.bind {α β : Type} {b b' : Build α} {f f' : α → Build β} {s s' : Site}
    (h : Agree (on b s) (on b' s'))
    (hf : ∀ a (t t' : Site), t.fs = t'.fs → t.calls = t'.calls → Agree (on (f a) t) (on (f' a) t')) :
    Agree (on (b >>= f) s) (on (b' >>= f') s') := by
  obtain ⟨hresult, hfs, hcalls⟩ := h
  rw [on_bind, on_bind]
  generalize on b s = r at hresult hfs hcalls
  generalize on b' s' = r' at hresult hfs hcalls
  obtain ⟨r, t⟩ := r
  obtain ⟨r', t'⟩ := r'
  obtain rfl : r = r' := hresult
  cases r with
  | error e => exact ⟨rfl, hfs, hcalls⟩
  | ok a => exact hf a t t' hfs hcalls

theorem Agree.reporting {α : Type} {b b' : Build α} {s s' : Site} (h : Agree (on b s) (on b' s')) :
    Agree (on (Build.reporting b) s) (on (Build.reporting b') s') := by
  obtain ⟨hresult, hfs, hcalls⟩ := h
  rw [on_reporting, on_reporting]
  generalize on b s = r at hresult hfs hcalls
  generalize on b' s' = r' at hresult hfs hcalls
  obtain ⟨r, t⟩ := r
  obtain ⟨r', t'⟩ := r'
  obtain rfl : r = r' := hresult
  cases r <;> exact ⟨rfl, hfs, hcalls⟩

namespace Blind

variable {α β : Type}

theorem pure (a : α) : Blind (Pure.pure a : Build α) :=
  fun _ _ hfs hcalls => ⟨rfl, hfs, hcalls⟩

theorem halt (h : Halt) : Blind (throw h : Build α) :=
  fun _ _ hfs hcalls => ⟨rfl, hfs, hcalls⟩

theorem check (stage : Stage) (r : Except StageError α) : Blind (Build.check stage r) := by
  cases r with
  | ok a => exact .pure a
  | error cause => exact .halt _

theorem report (e : Event) : Blind (Build.report e) :=
  fun _ _ hfs hcalls => ⟨rfl, hfs, hcalls⟩

theorem inspect (f : FileSystem → α) : Blind (Build.inspect f) :=
  fun _ _ hfs hcalls => ⟨congrArg (fun fs => Except.ok (f fs)) hfs, hfs, hcalls⟩

theorem bind {b : Build α} {f : α → Build β} (hb : Blind b) (hf : ∀ a, Blind (f a)) :
    Blind (b >>= f) :=
  fun s s' hfs hcalls => (hb s s' hfs hcalls).bind hf

theorem provision (stage : Stage) (path : String) : Blind (Build.provision stage path) := by
  intro s s' hfs hcalls
  rw [on_provision, on_provision, hfs]
  generalize FileSystem.ensureDir path s'.fs = made
  obtain ⟨_ | _, fs⟩ := made <;> exact ⟨rfl, rfl, hcalls⟩

theorem runChecked (env : BuildEnvironment) (stage : Stage) (i : Invocation) :
    Blind (Build.runChecked env stage i) := by
  have hinvoke : Blind (invoke env i) := fun s s' hfs hcalls => by
    rw [on_invoke, on_invoke, hfs, hcalls]
    exact ⟨rfl, rfl, rfl⟩
  refine hinvoke.bind fun outcome => ?_
  cases outcome with
  | exited status =>
    dsimp only
    split
    · exact .pure ()
    · exact .halt _
  | notStarted cause => exact .halt _
  | crashed => exact .halt _

end Blind

section

variable {env : BuildEnvironment} {job : Job} {id : BuildId}

/-- What a build does once it has read the bindings file, with all its bindings. -/
def finish (env : BuildEnvironment) (git : String) (job : Job) (id : BuildId) (b : Bindings) :
    Build BuildReport := do
  let layout := Layout.of env.buildRoot job.profile job.repo id
  checkout env git job layout
  provision .provisionBinaryDir layout.binaries
  let config ← loadConfig job layout
  let configured ← configure env config b job layout
  return { id, layout, configured }

/-- Only the configure command needs bindings, so that they may all be bound at once. -/
theorem stages_eq_finish (git : String) :
    let layout := Layout.of env.buildRoot job.profile job.repo id
    stages env git job id =
      provision .provisionToplevel layout.toplevel >>= fun _ =>
        loadBindings env >>= fun b => finish env git job id (ownBindings b job id layout) := rfl

theorem blind_checkout (git : String) (layout : Layout) : Blind (checkout env git job layout) := by
  unfold checkout
  split
  · exact .halt _
  · exact (Blind.runChecked env _ _).bind fun _ => .runChecked env _ _

theorem blind_configure (config : Settings) (b : Bindings) (layout : Layout) :
    Blind (configure env config b job layout) := by
  refine (Blind.check _ _).bind fun words => ?_
  match words with
  | none => exact (Blind.report _).bind fun _ => .pure _
  | some [] => exact .halt _
  | some (tool :: args) =>
    refine (Blind.inspect _).bind fun found => ?_
    cases found with
    | none => exact .halt _
    | some program => exact (Blind.runChecked env _ _).bind fun _ => .pure _

theorem blind_finish (env : BuildEnvironment) (git : String) (b : Bindings) : Blind (finish env git job id b) := by
  refine (blind_checkout git _).bind fun _ => (Blind.provision _ _).bind fun _ => ?_
  refine Blind.bind ((Blind.inspect _).bind fun loaded => .check _ _) fun config => ?_
  exact (blind_configure config b _).bind fun _ => .pure _

/-- Bindings files that differ in own tokens only make no difference once they are loaded. -/
theorem agree_stages {file file' : String} {loaded loaded' : Option Settings} {s : Site}
    (git : String)
    (hload : Settings.loadOptional (openingFs env job id s.fs) bindingsRole file = .ok loaded)
    (hload' : Settings.loadOptional (openingFs env job id s.fs) bindingsRole file' = .ok loaded')
    (hforeign : ∀ key, Foreign key → loaded.bind (·.get? key) = loaded'.bind (·.get? key)) :
    Agree (on (stages { env with bindingsFile := file } git job id) s)
      (on (stages { env with bindingsFile := file' } git job id) s) := by
  rw [stages_eq_finish, stages_eq_finish, on_bind, on_bind]
  have hfs := on_provision_fs .provisionToplevel
    (Layout.of env.buildRoot job.profile job.repo id).toplevel s
  dsimp only
  generalize on (provision .provisionToplevel
    (Layout.of env.buildRoot job.profile job.repo id).toplevel) s = opened at hfs ⊢
  obtain ⟨e | _, t⟩ := opened
  · exact ⟨rfl, rfl, rfl⟩
  · -- Up to here the two runs are the same, and from here on they have the same bindings.
    change t.fs = openingFs env job id s.fs at hfs
    rw [← hfs] at hload hload'
    obtain ⟨events, hrun⟩ := on_loadBindings { env with bindingsFile := file } hload
    obtain ⟨events', hrun'⟩ := on_loadBindings { env with bindingsFile := file' } hload'
    dsimp only
    rw [on_bind, on_bind, hrun, hrun']
    have hown (layout : Layout) : ownBindings (bindingsOf loaded) job id layout =
        ownBindings (bindingsOf loaded') job id layout :=
      ownBindings_congr fun key hkey => by
        rw [get?_bindingsOf, get?_bindingsOf, hforeign key hkey]
    dsimp only
    rw [hown]
    exact blind_finish env git _ _ _ rfl rfl

theorem agree_build {file file' : String} {loaded loaded' : Option Settings} {s : Site}
    (hload : Settings.loadOptional (openingFs env job id s.fs) bindingsRole file = .ok loaded)
    (hload' : Settings.loadOptional (openingFs env job id s.fs) bindingsRole file' = .ok loaded')
    (hforeign : ∀ key, Foreign key → loaded.bind (·.get? key) = loaded'.bind (·.get? key)) :
    Agree (on (build { env with bindingsFile := file } job id) s)
      (on (build { env with bindingsFile := file' } job id) s) := by
  have hfs := on_findGit_fs env job s
  have hfind (file : String) : findGit { env with bindingsFile := file } job = findGit env job := rfl
  rw [build, build, on_bind, on_bind, hfind file, hfind file']
  generalize on (findGit env job) s = found at hfs ⊢
  obtain ⟨e | git, t⟩ := found
  · exact ⟨rfl, rfl, rfl⟩
  · change t.fs = s.fs at hfs
    rw [← hfs] at hload hload'
    exact (agree_stages git hload hload' hforeign).reporting

/-- No bindings file has a say in the own tokens of a build. Two files that differ in these
    only, if both can be loaded or are absent, lead to the same result, the same invocations
    and the same file system. When the build gets to its configure command, each own token
    stands for its own value and every other name for what the file says, in that the words
    of the command are those of its expansion with these values. -/
theorem own_tokens_reserved {site : Site} {file file' : String} {loaded loaded' : Option Settings}
    (hload : Settings.loadOptional (openingFs env job id site.fs) bindingsRole file = .ok loaded)
    (hload' : Settings.loadOptional (openingFs env job id site.fs) bindingsRole file' = .ok loaded')
    (hforeign : ∀ key, Foreign key → loaded.bind (·.get? key) = loaded'.bind (·.get? key)) :
    Agree (runBuild { env with bindingsFile := file } job id site)
        (runBuild { env with bindingsFile := file' } job id site) ∧
      ∀ p reached, Passes { env with bindingsFile := file } job id Gate.configure.earlier site p
          reached →
        (∀ t : OwnToken, p.bindings.get? t.name =
          some (t.value job id (Layout.of env.buildRoot job.profile job.repo id))) ∧
        (∀ key, Foreign key → p.bindings.get? key = loaded.bind (·.get? key)) ∧
        ∀ (command : String) (d : Bindings.Division),
          p.config.get? (configureKey job.profile) = some command →
          command.toList.all Text.isBlank = false →
          d.text = command.toList → d.Proper p.bindings [] →
          configureWords p.config p.bindings job.profile =
            match Text.splitQuoted (String.ofList (d.expansion p.bindings)) with
            | none => .error (.openQuote (String.ofList (d.expansion p.bindings)))
            | some words => .ok (some words) := by
  refine ⟨agree_build hload hload' hforeign, fun p reached hpasses => ?_⟩
  obtain ⟨found, hfound, hbindings⟩ := bindings_of_passes hpasses
  obtain rfl : loaded = found := Except.ok.inj (hload.symm.trans hfound)
  rw [hbindings]
  refine ⟨get?_ownBindings_own _, fun key hkey => ?_, fun command d hcommand hblank htext hproper => ?_⟩
  · rw [get?_ownBindings_foreign _ hkey, get?_bindingsOf]
  · refine configureWords_of_expand hcommand hblank ?_
    rw [Bindings.expand_eq_ok, ← htext, Bindings.expandFrom_text hproper, String.toList_ofList]

theorem loadOptional_of_document {fs : FileSystem} {role : FileRole} {path : String}
    {d : Ini.Document} (text : String) (place : Place) (mode : Nat)
    (hfile : fs.stat path = .ok (place, .file (Text.utf8Encode text) mode))
    (hmark : text.toList.head? ≠ some '\uFEFF') (hread : Ini.Document.ofText text = .ok d) :
    Settings.loadOptional fs role path = .ok (some (.ofDocument d)) := by
  rw [Settings.loadOptional_of_fileText hfile (fileText_utf8Encode hmark), Settings.ofText, hread]
  rfl

/-- A second bindings file has an own token in addition. -/
def twoBindingsFiles : FileSystem :=
  vacantRoot.put [] "n" (textFile "FOO = foo\nBUILD_ID = other\n")

theorem own_tokens_reserved_override :
    let run (file : String) := buildOn { commandEnv "b" "c @FOO@ @BUILD_ID@" with bindingsFile := file }
      (jobOf "p") firstId twoBindingsFiles
    Agree (run "/m") (run "/n") ∧ (run "/n").2.calls.getLast? =
      some ⟨"/usr/bin/c", ["foo", "0a1b2c3d"], some "/b/p/r/0a1b2c3d/build"⟩ := by
  have hload : Settings.loadOptional (openingFs (commandEnv "b" "c @FOO@ @BUILD_ID@") (jobOf "p")
      firstId (Site.mk twoBindingsFiles [] []).fs) bindingsRole "/m" =
      .ok (some (.ofDocument [.assign "FOO" "foo"])) :=
    loadOptional_of_document "FOO = foo\n" ["m"] FileSystem.newFileMode
      (ok_of_toOption (by decide +kernel)) (by decide) (ok_of_toOption (by decide +kernel))
  have hload' : Settings.loadOptional (openingFs (commandEnv "b" "c @FOO@ @BUILD_ID@") (jobOf "p")
      firstId (Site.mk twoBindingsFiles [] []).fs) bindingsRole "/n" =
      .ok (some (.ofDocument [.assign "FOO" "foo", .assign "BUILD_ID" "other"])) :=
    loadOptional_of_document "FOO = foo\nBUILD_ID = other\n" ["n"] FileSystem.newFileMode
      (ok_of_toOption (by decide +kernel)) (by decide) (ok_of_toOption (by decide +kernel))
  refine ⟨(own_tokens_reserved hload hload' ?_).1, by decide +kernel⟩
  intro key hkey
  have hid : ("BUILD_ID" == key) = false := beq_false_of_ne (hkey .id)
  simp [Settings.get?, Settings.ofDocument, Settings.getElem?_mapOf, Ini.Document.flatten,
    Ini.Document.flattenFrom, Ini.fullKey, hid]

end

end BuildServer.Build
