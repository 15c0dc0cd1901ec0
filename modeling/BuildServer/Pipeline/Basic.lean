-- SUMMARY: Builds: check out the sources, prepare the directories and configure.
import BuildServer.Pipeline.Site
import BuildServer.Settings.File
import BuildServer.Text.Quoted

/-!
# Builds

A build goes through its stages in order and stops at the first failure. It
never removes anything: a directory that is there is used, and one that is
missing is created. The configure command comes from the checked-out sources,
with the tokens of the bindings file and of the build itself expanded before it
is split into words.
-/

namespace BuildServer

/-- What came of a build that passed every stage. -/
structure BuildReport where
  id : BuildId
  layout : Layout
  /-- Whether there was a configure command to run. -/
  configured : Bool
  deriving DecidableEq

namespace Build

def bindingsRole : FileRole := ⟨"macro file"⟩

def configRole : FileRole := ⟨"build config"⟩

/-- Names that every build binds itself. -/
def idName : String := "BUILD_ID"

def profileName : String := "BUILD_PROFILE"

def repositoryName : String := "BUILD_REPOSITORY"

def sourcesName : String := "CMAKE_SOURCE_DIRECTORY"

def binariesName : String := "CMAKE_BINARY_DIRECTORY"

def gitTool : String := "git"

def configureKey (profile : String) : String := profile ++ ".cmd_configure"

/-! ## Stages -/

def findGit (env : BuildEnvironment) (job : Job) : Build String := do
  match ← inspect (env.locate · gitTool) with
  | some git => return git
  | none =>
    report (.toolsMissing job.repo (.toolNotFound gitTool))
    fail .resolveTools (.toolNotFound gitTool)

/-- The bindings of the bindings file, which may be absent. -/
def loadBindings (env : BuildEnvironment) : Build Bindings := do
  let loaded ← inspect (Settings.loadOptional · bindingsRole env.bindingsFile)
  match ← check .loadBindings (loaded.mapError .settings) with
  | some settings => return Bindings.empty.extend settings
  | none =>
    report (.bindingsAbsent env.bindingsFile)
    return .empty

def bindJob (b : Bindings) (job : Job) (id : BuildId) : Bindings :=
  ((b.insert idName id.text).insert profileName job.profile).insert repositoryName job.repo

def cloneCall (git : String) (job : Job) (layout : Layout) : Invocation where
  program := git
  args := ["clone", "--recursive", "-b", job.branch, "--", job.url, layout.sources]
  cwd := none

def checkoutCall (git : String) (job : Job) (layout : Layout) : Invocation where
  program := git
  args := ["checkout", job.revision, "--", "."]
  cwd := some layout.sources

/-- A revision that reads like an option is refused before anything is run. -/
def checkout (env : BuildEnvironment) (git : String) (job : Job) (layout : Layout) :
    Build Unit := do
  if job.revision.toList.head? = some '-' then
    fail .checkout (.optionLikeRevision job.revision)
  runChecked env .checkout (cloneCall git job layout)
  runChecked env .checkout (checkoutCall git job layout)

def loadConfig (job : Job) (layout : Layout) : Build Settings := do
  let loaded ← inspect (Settings.load · configRole (Path.join layout.sources job.config))
  check .loadBuildConfig (loaded.mapError .settings)

/-- The words of the configure command, or nothing if it is blank. -/
def configureWords (config : Settings) (b : Bindings) (profile : String) :
    Except StageError (Option (List String)) := do
  let command ← (config.required .text (configureKey profile)).mapError .settings
  if command.toList.all Text.isBlank then return none
  let expanded ← (b.expand command).mapError .unresolvedToken
  match Text.splitQuoted expanded with
  | none => throw (.openQuote expanded)
  | some words => return some words

def configureCall (program : String) (args : List String) (layout : Layout) : Invocation where
  program := program
  args := args
  cwd := some layout.binaries

/-- Run the configure command. Tells whether there was one. -/
def configure (env : BuildEnvironment) (config : Settings) (b : Bindings) (job : Job)
    (layout : Layout) : Build Bool := do
  match ← check .configure (configureWords config b job.profile) with
  | none =>
    report (.configureBlank (configureKey job.profile))
    return false
  | some [] => fail .configure .emptyCommand
  | some (tool :: args) =>
    match ← inspect (env.locate · tool) with
    | none => fail .configure (.toolNotFound tool)
    | some program =>
      runChecked env .configure (configureCall program args layout)
      return true

/-! ## Builds -/

/-- The stages that need the tools and an identifier. -/
def stages (env : BuildEnvironment) (git : String) (job : Job) (id : BuildId) :
    Build BuildReport := do
  let layout := Layout.of env.buildRoot job.profile job.repo id
  provision .provisionToplevel layout.toplevel
  let bindings := bindJob (← loadBindings env) job id
  checkout env git job layout
  let bindings := bindings.insert sourcesName layout.sources
  provision .provisionBinaryDir layout.binaries
  let bindings := bindings.insert binariesName layout.binaries
  let config ← loadConfig job layout
  let configured ← configure env config bindings job layout
  return { id, layout, configured }

/-- Report the failure of a build, if it failed. -/
def reporting {α : Type} (b : Build α) : Build α :=
  tryCatch b fun h => do
    match h with
    | .failed error => report (.aborted error)
    | .crashed => pure ()
    throw h

/-- Build a job under the given identifier. -/
def build (env : BuildEnvironment) (job : Job) (id : BuildId) : Build BuildReport := do
  let git ← findGit env job
  reporting (stages env git job id)

end Build

/-- Build a job on a site. -/
def runBuild (env : BuildEnvironment) (job : Job) (id : BuildId) (site : Site) :
    Except Build.Halt BuildReport × Site :=
  (Build.build env job id).run site

end BuildServer
