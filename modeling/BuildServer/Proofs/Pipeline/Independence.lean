-- SUMMARY: Builds with different identifiers do not get in each other's way, in whatever order they run.
import BuildServer.Proofs.Pipeline.Programs

/-!
# Independent builds

Two builds with different identifiers have different directories of their own.
They may share the way to these, and the first of them that gets there creates
it. As this makes no difference to a confined build, the builds come to the same
in either order, and so does the file system. It does make a difference if the
way to anything else that a build looks at leads through there.
-/

namespace BuildServer.Build

variable {env : BuildEnvironment} {base : Place} {job₁ job₂ : Job} {id₁ id₂ : BuildId}
variable {fs fs' : FileSystem} {D : Place → Prop}

theorem eq_of_text_eq {a b : BuildId} (h : a.text = b.text) : a = b := by
  obtain ⟨text, _, _⟩ := a
  obtain ⟨text', _, _⟩ := b
  obtain rfl : text = text' := h
  rfl

theorem not_touches_of_own (hid : id₁ ≠ id₂) {q : Place} (hq : ownPlace base job₂ id₂ <+: q) :
    ¬ Touches base job₁ id₁ q := by
  rintro (hshared | hown)
  · exact not_own_of_shared hshared hq
  · have hlength : (ownPlace base job₁ id₁).length = (ownPlace base job₂ id₂).length := by
      simp [ownPlace]
    have hprefix := List.prefix_of_prefix_length_le hown hq (Nat.le_of_eq hlength)
    have hsame := hprefix.eq_of_length hlength
    have hnames := List.append_cancel_left hsame
    rw [List.cons.injEq, List.cons.injEq, List.cons.injEq] at hnames
    exact hid (eq_of_text_eq hnames.2.2.1)

/-- What another build leaves looks the same to a build. -/
theorem alike_of_confined (hid : id₁ ≠ id₂) (hfs₁ : Grounded env base job₁ id₁ fs)
    (hfs₂ : Grounded env base job₂ id₂ fs) (h : Confined base job₁ id₁ D fs fs')
    (hplain : fs'.Plain) : Alike env base job₂ id₂ ⟨fs, [], []⟩ ⟨fs', [], []⟩ where
  grounded := hfs₂
  grounded' :=
    { plain := hplain
      root := (h.grounded hfs₁ hplain).root
      base_directory := (h.grounded hfs₁ hplain).base_directory
      root_way := by
        rw [h.way_eq]
        exact hfs₂.root_way
      bindings_way := by
        rw [h.way_eq]
        exact hfs₂.bindings_way }
  calls := rfl
  events := rfl
  cwd := h.cwd.symm
  outer q hq := (h.getElem?_of_not_touches fun htouches => hq (below_of_touches htouches)).symm
  bindings q hq := (h.getElem?_of_not_touches (hfs₁.bindings_way q hq)).symm
  shared q hq := (h.settled_eq (not_own_of_shared hq)).symm
  own q hq := (h.getElem?_of_not_touches (not_touches_of_own hid hq)).symm

theorem alike_refl (h : Grounded env base job₁ id₁ fs) :
    Alike env base job₁ id₁ ⟨fs, [], []⟩ ⟨fs, [], []⟩ where
  grounded := h
  grounded' := h
  calls := rfl
  events := rfl
  cwd := rfl
  outer _ _ := rfl
  bindings _ _ := rfl
  shared _ _ := rfl
  own _ _ := rfl

/-- Confined changes by two builds do not depend on their order, if each does the same
    in its own directory either way. -/
theorem confined_comm {first₁ then₂ first₂ then₁ : FileSystem} {D₁ D₂ : Place → Prop}
    (hid : id₁ ≠ id₂) (hfirst₁ : Confined base job₁ id₁ D₁ fs first₁)
    (hthen₂ : Confined base job₂ id₂ D₂ first₁ then₂)
    (hfirst₂ : Confined base job₂ id₂ D₂ fs first₂)
    (hthen₁ : Confined base job₁ id₁ D₁ first₂ then₁)
    (hown₁ : ∀ q : Place, ownPlace base job₁ id₁ <+: q → first₁.nodes[q]? = then₁.nodes[q]?)
    (hown₂ : ∀ q : Place, ownPlace base job₂ id₂ <+: q → first₂.nodes[q]? = then₂.nodes[q]?) :
    then₂ = then₁ := by
  have hcwd : then₂.cwd = then₁.cwd := by
    rw [hthen₂.cwd, hfirst₁.cwd, hthen₁.cwd, hfirst₂.cwd]
  refine FileSystem.ext_getElem? hcwd fun q => ?_
  by_cases hq₁ : ownPlace base job₁ id₁ <+: q
  · rw [hthen₂.getElem?_of_not_touches (not_touches_of_own hid.symm hq₁), hown₁ q hq₁]
  by_cases hq₂ : ownPlace base job₂ id₂ <+: q
  · rw [hthen₁.getElem?_of_not_touches (not_touches_of_own hid hq₂), hown₂ q hq₂]
  by_cases hD₂ : D₂ q
  · rw [hthen₂.filled q hq₂ hD₂, hfirst₁.settled_eq hq₁]
    by_cases hD₁ : D₁ q
    · rw [hthen₁.filled q hq₁ hD₁, hfirst₂.settled_eq hq₂]
    · rw [hthen₁.kept q hq₁ hD₁, hfirst₂.filled q hq₂ hD₂]
  · rw [hthen₂.kept q hq₂ hD₂]
    by_cases hD₁ : D₁ q
    · rw [hthen₁.filled q hq₁ hD₁, hfirst₂.settled_eq hq₂, hfirst₁.filled q hq₁ hD₁]
    · rw [hthen₁.kept q hq₁ hD₁, hfirst₂.kept q hq₂ hD₂, hfirst₁.kept q hq₁ hD₁]

/-- Two builds with different identifiers whose programs keep to their directories, on a
    file system without links that has the build root at `base`. -/
structure Apart (env : BuildEnvironment) (base : Place) (job₁ job₂ : Job) (id₁ id₂ : BuildId)
    (fs : FileSystem) : Prop where
  ids : id₁ ≠ id₂
  locates : LocatesOutside env base
  first : Separate env base job₁ id₁
  second : Separate env base job₂ id₂
  plain : fs.Plain
  root : fs.stat env.buildRoot = .ok (base, .directory)
  base_directory : fs.node? base = some .directory

/-- The paths to the build root and to the bindings file do not lead through what a build
    changes, and its programs leave no links. -/
structure Clear (env : BuildEnvironment) (base : Place) (job : Job) (id : BuildId)
    (fs : FileSystem) : Prop where
  root_way : ∀ q ∈ fs.way env.buildRoot, ¬ ownPlace base job id <+: q
  bindings_way : ∀ q ∈ fs.way env.bindingsFile, ¬ Touches base job id q
  linkless : Linkless env base job id

/-- Build on a file system. -/
def buildOn (env : BuildEnvironment) (job : Job) (id : BuildId) (fs : FileSystem) :
    Except Halt BuildReport × Site :=
  runBuild env job id ⟨fs, [], []⟩

/-- In either order, two builds come to the same with the same invocations and reports, and
    leave the same file system. -/
structure Commute (env : BuildEnvironment) (job₁ job₂ : Job) (id₁ id₂ : BuildId)
    (fs : FileSystem) : Prop where
  result₁ : (buildOn env job₁ id₁ fs).1 =
    (buildOn env job₁ id₁ (buildOn env job₂ id₂ fs).2.fs).1
  result₂ : (buildOn env job₂ id₂ fs).1 =
    (buildOn env job₂ id₂ (buildOn env job₁ id₁ fs).2.fs).1
  calls₁ : (buildOn env job₁ id₁ fs).2.calls =
    (buildOn env job₁ id₁ (buildOn env job₂ id₂ fs).2.fs).2.calls
  calls₂ : (buildOn env job₂ id₂ fs).2.calls =
    (buildOn env job₂ id₂ (buildOn env job₁ id₁ fs).2.fs).2.calls
  events₁ : (buildOn env job₁ id₁ fs).2.events =
    (buildOn env job₁ id₁ (buildOn env job₂ id₂ fs).2.fs).2.events
  events₂ : (buildOn env job₂ id₂ fs).2.events =
    (buildOn env job₂ id₂ (buildOn env job₁ id₁ fs).2.fs).2.events
  left : (buildOn env job₂ id₂ (buildOn env job₁ id₁ fs).2.fs).2.fs =
    (buildOn env job₁ id₁ (buildOn env job₂ id₂ fs).2.fs).2.fs

/-- Builds that are apart and clear commute. -/
theorem runBuild_comm (h : Apart env base job₁ job₂ id₁ id₂ fs)
    (hclear₁ : Clear env base job₁ id₁ fs) (hclear₂ : Clear env base job₂ id₂ fs) :
    Commute env job₁ job₂ id₁ id₂ fs := by
  have hfs₁ : Grounded env base job₁ id₁ fs :=
    ⟨h.plain, h.root, h.base_directory, hclear₁.root_way, hclear₁.bindings_way⟩
  have hfs₂ : Grounded env base job₂ id₂ fs :=
    ⟨h.plain, h.root, h.base_directory, hclear₂.root_way, hclear₂.bindings_way⟩
  have hparallel₁ := parallel_build h.first hclear₁.linkless h.locates
  have hparallel₂ := parallel_build h.second hclear₂.linkless h.locates
  -- What each build alone leaves looks the same to the other.
  obtain ⟨-, halone₁, ⟨_, hgrown₁, -⟩, -⟩ := hparallel₁ _ _ (alike_refl hfs₁) trivial trivial
  obtain ⟨-, halone₂, ⟨_, hgrown₂, -⟩, -⟩ := hparallel₂ _ _ (alike_refl hfs₂) trivial trivial
  have halike₂ := alike_of_confined h.ids hfs₁ hfs₂ hgrown₁ halone₁.grounded.plain
  have halike₁ := alike_of_confined h.ids.symm hfs₂ hfs₁ hgrown₂ halone₂.grounded.plain
  -- So each comes to the same before and after the other.
  obtain ⟨hresult₁, hend₁, ⟨D₁, hfirst₁, hthen₁⟩, -⟩ := hparallel₁ _ _ halike₁ trivial trivial
  obtain ⟨hresult₂, hend₂, ⟨D₂, hfirst₂, hthen₂⟩, -⟩ := hparallel₂ _ _ halike₂ trivial trivial
  refine ⟨hresult₁, hresult₂, hend₁.calls, hend₂.calls, hend₁.events, hend₂.events, ?_⟩
  exact confined_comm h.ids hfirst₁ hthen₂ hfirst₂ hthen₁ hend₁.own hend₂.own

/-! ## Builds of two profiles -/

section Profiles

open FileSystem (Inward)
open BuildServer.Path (Ordinary)

def jobOf (profile : String) : Job := ⟨"r", "u", "main", "abc", "c", profile⟩

def firstId : BuildId := ⟨"0a1b2c3d", by decide, by decide⟩

def secondId : BuildId := ⟨"0a1b2c3e", by decide, by decide⟩

def firstPlace : Place := ["b", "p", "r", "0a1b2c3d"]

def secondPlace : Place := ["b", "q", "r", "0a1b2c3e"]

def textFile (text : String) : Node := .file (Text.utf8Encode text) FileSystem.newFileMode

/-- Put sources there that consist of a build configuration for a profile. -/
def deliver (own : Place) (profile : String) (fs : FileSystem) : FileSystem :=
  (fs.put own "repo" .directory).put (own ++ ["repo"]) "c"
    (textFile s!"[{profile}]\ncmd_configure = c @FOO@\n")

def vacantRoot : FileSystem :=
  (FileSystem.empty.put [] "b" .directory).put [] "m" (textFile "FOO = foo\n")

/-- One way to fetch sources for this target, and another one for all others. -/
def byTarget (own : String) (f g : FileSystem → FileSystem) (target : String) :
    FileSystem → FileSystem :=
  if target = own then f else g

/-- The two builds fetch their sources in different ways. -/
def profilesEnv (buildRoot bindingsFile : String) (first second : FileSystem → FileSystem) :
    BuildEnvironment where
  buildRoot
  bindingsFile
  locate := locateIn "/usr/bin"
  run := fetching (byTarget (Layout.of buildRoot "p" "r" firstId).sources first second)

def deliveringEnv : BuildEnvironment :=
  profilesEnv "/b" "/m" (deliver firstPlace "p") (deliver secondPlace "q")

variable {buildRoot bindingsFile : String} {first second : FileSystem → FileSystem}
variable {fs : FileSystem}

theorem byTarget_self (own : String) (f g : FileSystem → FileSystem) :
    byTarget own f g own = f := if_pos rfl

theorem byTarget_of_ne {own target : String} (h : target ≠ own) (f g : FileSystem → FileSystem) :
    byTarget own f g target = g := if_neg h

theorem run_profilesEnv : (profilesEnv buildRoot bindingsFile first second).run =
    fetching (byTarget (Layout.of buildRoot "p" "r" firstId).sources first second) := rfl

theorem textFile_ne_link (text : String) (target : String) : textFile text ≠ .link target := by
  simp [textFile]

theorem inward_deliver (own : Place) (profile : String) : Inward own (deliver own profile) :=
  (Inward.put List.prefix_rfl ..).comp (.put (List.prefix_append ..) ..)

theorem plain_deliver (h : fs.Plain) (own : Place) (profile : String) :
    (deliver own profile fs).Plain :=
  (h.put (by simp) ..).put (textFile_ne_link _) ..

theorem plain_vacantRoot : vacantRoot.Plain :=
  (FileSystem.Plain.empty.put (by simp) ..).put (textFile_ne_link _) ..

theorem ordinary_p : Ordinary "p" := ⟨by decide, by decide, by decide, by decide⟩

theorem ordinary_q : Ordinary "q" := ⟨by decide, by decide, by decide, by decide⟩

theorem ordinary_r : Ordinary "r" := ⟨by decide, by decide, by decide, by decide⟩

theorem ok_of_toOption {ε α : Type} {r : Except ε α} {a : α} (h : r.toOption = some a) :
    r = .ok a := by
  cases r with
  | error e => cases h
  | ok b => exact congrArg Except.ok (Option.some.inj h)

/-- The two builds are apart if each fetches its sources into its own directory. -/
theorem apart_profiles (hfirst : Inward firstPlace first) (hsecond : Inward secondPlace second)
    (htargets : (Layout.of buildRoot "q" "r" secondId).sources ≠
      (Layout.of buildRoot "p" "r" firstId).sources)
    (hplain : fs.Plain) (hroot : (fs.stat buildRoot).toOption = some (["b"], .directory))
    (hbase : fs.node? ["b"] = some .directory) :
    Apart (profilesEnv buildRoot bindingsFile first second) ["b"] (jobOf "p")
      (jobOf "q") firstId secondId fs where
  ids := by decide
  locates _ _ _ _ _ := rfl
  first := by
    refine separate_fetching run_profilesEnv ordinary_p ordinary_r (by decide +kernel)
      (by decide +kernel) ?_
    exact (byTarget_self ..).symm ▸ hfirst
  second := by
    refine separate_fetching run_profilesEnv ordinary_q ordinary_r (by decide +kernel)
      (by decide +kernel) ?_
    exact (byTarget_of_ne htargets ..).symm ▸ hsecond
  plain := hplain
  root := ok_of_toOption hroot
  base_directory := hbase

theorem linkless_first (h : ∀ fs : FileSystem, fs.Plain → (first fs).Plain) :
    Linkless (profilesEnv buildRoot bindingsFile first second) ["b"] (jobOf "p")
      firstId := by
  refine linkless_fetching run_profilesEnv fun fs hfs => ?_
  exact (byTarget_self ..).symm ▸ h fs hfs

theorem linkless_second
    (htargets : (Layout.of buildRoot "q" "r" secondId).sources ≠
      (Layout.of buildRoot "p" "r" firstId).sources)
    (h : ∀ fs : FileSystem, fs.Plain → (second fs).Plain) :
    Linkless (profilesEnv buildRoot bindingsFile first second) ["b"] (jobOf "q")
      secondId := by
  refine linkless_fetching run_profilesEnv fun fs hfs => ?_
  exact (byTarget_of_ne htargets ..).symm ▸ h fs hfs

theorem targets_ne : (Layout.of "/b" "q" "r" secondId).sources ≠
    (Layout.of "/b" "p" "r" firstId).sources := by decide +kernel

/-- Both builds come to their end, whichever is first. -/
theorem runBuild_comm_profiles :
    Commute deliveringEnv (jobOf "p") (jobOf "q") firstId secondId vacantRoot ∧
      (buildOn deliveringEnv (jobOf "p") firstId vacantRoot).1.isOk ∧
      (buildOn deliveringEnv (jobOf "q") secondId vacantRoot).1.isOk := by
  have happart : Apart deliveringEnv ["b"] (jobOf "p") (jobOf "q") firstId secondId
      vacantRoot :=
    apart_profiles (inward_deliver ..) (inward_deliver ..) targets_ne plain_vacantRoot
      (by decide +kernel) (by decide +kernel)
  have hfirst : Clear deliveringEnv ["b"] (jobOf "p") firstId vacantRoot :=
    ⟨by decide +kernel, by decide +kernel, linkless_first fun _ hfs => plain_deliver hfs ..⟩
  have hsecond : Clear deliveringEnv ["b"] (jobOf "q") secondId vacantRoot :=
    ⟨by decide +kernel, by decide +kernel,
      linkless_second targets_ne fun _ hfs => plain_deliver hfs ..⟩
  exact ⟨runBuild_comm happart hfirst hsecond, by decide +kernel, by decide +kernel⟩

/-! ## Builds that meet -/

/-- The path to the bindings file does not lead into the build root. -/
def BindingsOutside (env : BuildEnvironment) (base : Place) (fs : FileSystem) : Prop :=
  ∀ found ∈ (fs.stat env.bindingsFile).toOption, ¬ base <+: found.1

instance (env : BuildEnvironment) (base : Place) (fs : FileSystem) :
    Decidable (BindingsOutside env base fs) :=
  inferInstanceAs (Decidable (∀ found ∈ _, _))

/-- The two builds are apart and the bindings file is not in the build root, but the second
    build makes `alone` invocations before and `after` invocations after the first one. -/
structure Meet (env : BuildEnvironment) (fs : FileSystem) (alone after : Nat) : Prop where
  apart : Apart env ["b"] (jobOf "p") (jobOf "q") firstId secondId fs
  outside : BindingsOutside env ["b"] fs
  outside_after : BindingsOutside env ["b"] (buildOn env (jobOf "p") firstId fs).2.fs
  calls_alone : (buildOn env (jobOf "q") secondId fs).2.calls.length = alone
  calls_after : (buildOn env (jobOf "q") secondId
    (buildOn env (jobOf "p") firstId fs).2.fs).2.calls.length = after

/-- A build root with a bindings file beside it that is no text. -/
def untextualRoot : FileSystem :=
  (FileSystem.empty.put [] "b" .directory).put [] "m"
    (.file [0xff] FileSystem.newFileMode)

/-- A build root with a directory in the place of the first build. -/
def preparedRoot : FileSystem :=
  (((vacantRoot.put ["b"] "p" .directory).put ["b", "p"] "r" .directory).put
    ["b", "p", "r"] "0a1b2c3d" .directory).put firstPlace "x" .directory

/-- Replace that directory by a file. -/
def replace (fs : FileSystem) : FileSystem :=
  (fs.remove (firstPlace ++ ["x"])).put firstPlace "x" (textFile "")

/-- The bindings file is reached through the directory of all first builds. -/
def sharedDetourEnv : BuildEnvironment :=
  profilesEnv "/b" "/b/p/../../m" id id

/-- The bindings file is reached through the directory of the first build. -/
def ownDetourEnv : BuildEnvironment :=
  profilesEnv "/b" "/b/p/r/0a1b2c3d/x/../../../../../m" replace id

/-- The build root is reached through the directory of the first build. -/
def rootDetourEnv : BuildEnvironment :=
  profilesEnv "/b/p/r/0a1b2c3d/x/../../../.." "/m" replace id

/-- Make the sources of the second build a link to those of the first build. -/
def linkSources : FileSystem → FileSystem :=
  FileSystem.put secondPlace "repo" (.link "/b/p/r/0a1b2c3d/repo")

def linkingEnv : BuildEnvironment :=
  profilesEnv "/b" "/m" (deliver firstPlace "q") linkSources

theorem inward_replace : Inward firstPlace replace :=
  (Inward.remove (List.prefix_append ..)).comp (.put List.prefix_rfl ..)

theorem inward_linkSources : Inward secondPlace linkSources :=
  .put List.prefix_rfl ..

theorem plain_untextualRoot : untextualRoot.Plain :=
  (FileSystem.Plain.empty.put (by simp) ..).put (by simp) ..

theorem plain_preparedRoot : preparedRoot.Plain :=
  (((plain_vacantRoot.put (by simp) ..).put (by simp) ..).put (by simp) ..).put (by simp) ..

theorem meet_sharedDetour : Meet sharedDetourEnv untextualRoot 2 0 where
  apart := apart_profiles .id .id targets_ne plain_untextualRoot (by decide +kernel)
    (by decide +kernel)
  outside := by decide +kernel
  outside_after := by decide +kernel
  calls_alone := by decide +kernel
  calls_after := by decide +kernel

theorem meet_ownDetour : Meet ownDetourEnv preparedRoot 2 0 where
  apart := apart_profiles inward_replace .id targets_ne plain_preparedRoot (by decide +kernel)
    (by decide +kernel)
  outside := by decide +kernel
  outside_after := by decide +kernel
  calls_alone := by decide +kernel
  calls_after := by decide +kernel

theorem meet_rootDetour : Meet rootDetourEnv preparedRoot 2 0 where
  apart := apart_profiles inward_replace .id (by decide +kernel) plain_preparedRoot
    (by decide +kernel) (by decide +kernel)
  outside := by decide +kernel
  outside_after := by decide +kernel
  calls_alone := by decide +kernel
  calls_after := by decide +kernel

theorem meet_linking : Meet linkingEnv vacantRoot 2 3 where
  apart := apart_profiles (inward_deliver ..) inward_linkSources targets_ne plain_vacantRoot
    (by decide +kernel) (by decide +kernel)
  outside := by decide +kernel
  outside_after := by decide +kernel
  calls_alone := by decide +kernel
  calls_after := by decide +kernel

/-- Builds that are apart need not commute: the path to the bindings file may lead through
    a directory of the first build or above it, and that to the build root, too; and what
    the second build finds as its sources may be a link. -/
theorem apart_builds_meet :
    Meet sharedDetourEnv untextualRoot 2 0 ∧ Meet ownDetourEnv preparedRoot 2 0 ∧
      Meet rootDetourEnv preparedRoot 2 0 ∧ Meet linkingEnv vacantRoot 2 3 :=
  ⟨meet_sharedDetour, meet_ownDetour, meet_rootDetour, meet_linking⟩

end Profiles

end BuildServer.Build
