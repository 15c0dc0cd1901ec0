-- SUMMARY: A build that is confined to its own directory does the same wherever that directory and the way to it are the same.
import BuildServer.Proofs.FileSystem.Directories
import BuildServer.Proofs.Pipeline.Layout
import BuildServer.Proofs.Pipeline.Site

/-!
# Confined builds

A build has a directory of its own, at the end of a way that it shares with
others. If the programs that it runs keep to this directory, then the build
looks at nothing else, apart from the bindings file and the tools, and creates
nothing else but missing directories on the shared way. Hence two runs of it
that start on file systems which agree on all this come to the same, and create
the same directories on the way.
-/

namespace BuildServer.Build

open BuildServer.FileSystem (Plain Filled makeDirs trail settled)
open BuildServer.Path (Ordinary under)

/-! ## Places of a build -/

/-- The place of the toplevel directory of a build, if the build root is at `base`. -/
def ownPlace (base : Place) (job : Job) (id : BuildId) : Place :=
  base ++ [job.profile, job.repo, id.text]

/-- The places on the way from the build root to the toplevel directory. -/
def sharedPlaces (base : Place) (job : Job) : List Place :=
  [base ++ [job.profile], base ++ [job.profile, job.repo]]

/-- A build may create or change what is at this place. -/
def Touches (base : Place) (job : Job) (id : BuildId) (q : Place) : Prop :=
  q ∈ sharedPlaces base job ∨ ownPlace base job id <+: q

instance (base : Place) (job : Job) (id : BuildId) (q : Place) : Decidable (Touches base job id q) :=
  inferInstanceAs (Decidable (_ ∨ _))

/-! ## Confined programs -/

/-- A plain file system in which `own` can be a directory. -/
structure Ready (own : Place) (fs : FileSystem) : Prop where
  plain : fs.Plain
  parent : fs.node? own.dropLast = some .directory

/-- An invocation reads and changes only what is at or under `own`. -/
structure Local (run : Invocation → FileSystem → RunOutcome × FileSystem) (own : Place)
    (i : Invocation) : Prop where
  cwd : ∀ {fs}, Ready own fs → (run i fs).2.cwd = fs.cwd
  outside : ∀ {fs}, Ready own fs → ∀ q : Place, ¬ own <+: q →
    (run i fs).2.nodes[q]? = fs.nodes[q]?
  inside : ∀ {fs fs'}, Ready own fs → Ready own fs' → fs.cwd = fs'.cwd →
    (∀ q : Place, own <+: q → fs.nodes[q]? = fs'.nodes[q]?) →
    (run i fs).1 = (run i fs').1 ∧
      ∀ q : Place, own <+: q → (run i fs).2.nodes[q]? = (run i fs').2.nodes[q]?

/-- The invocations that a build can make. -/
inductive Issues (job : Job) (layout : Layout) : Invocation → Prop
  | clone (git : String) : Issues job layout (cloneCall git job layout)
  | checkOut (git : String) : Issues job layout (checkoutCall git job layout)
  | configure (program : String) (args : List String) :
      Issues job layout (configureCall program args layout)

/-- The names of a job are ordinary, and its programs keep to its own directory. -/
structure Separate (env : BuildEnvironment) (base : Place) (job : Job) (id : BuildId) : Prop where
  profile : Ordinary job.profile
  repo : Ordinary job.repo
  config_relative : Path.isAbsolute job.config = false
  config_down : ".." ∉ Path.segments job.config
  runs : ∀ i, Issues job (Layout.of env.buildRoot job.profile job.repo id) i →
    Local env.run (ownPlace base job id) i

/-- The programs of a job leave no links. -/
def Linkless (env : BuildEnvironment) (base : Place) (job : Job) (id : BuildId) : Prop :=
  ∀ i, Issues job (Layout.of env.buildRoot job.profile job.repo id) i →
    ∀ fs, Ready (ownPlace base job id) fs → (env.run i fs).2.Plain

/-- What is under `base` does not matter for where tools are found. -/
def LocatesOutside (env : BuildEnvironment) (base : Place) : Prop :=
  ∀ fs fs' : FileSystem, fs.cwd = fs'.cwd →
    (∀ q : Place, ¬ (base <+: q ∧ q ≠ base) → fs.nodes[q]? = fs'.nodes[q]?) →
    ∀ name, env.locate fs name = env.locate fs' name

section Places

variable {base : Place} {job : Job} {id : BuildId} {q : Place}

theorem below_of_own (h : ownPlace base job id <+: q) : base <+: q ∧ q ≠ base := by
  refine ⟨(List.prefix_append ..).trans h, ?_⟩
  rintro rfl
  have hlength := h.length_le
  simp only [ownPlace, List.length_append, List.length_cons, List.length_nil] at hlength
  omega

theorem below_of_touches (h : Touches base job id q) : base <+: q ∧ q ≠ base := by
  obtain h | h := h
  · simp only [sharedPlaces, List.mem_cons, List.not_mem_nil, or_false] at h
    obtain rfl | rfl := h <;> simp
  · exact below_of_own h

theorem not_own_of_shared {job' : Job} (h : q ∈ sharedPlaces base job') :
    ¬ ownPlace base job id <+: q := by
  intro hown
  have hlength := hown.length_le
  simp only [sharedPlaces, List.mem_cons, List.not_mem_nil, or_false] at h
  obtain rfl | rfl := h <;> simp [ownPlace] at hlength

end Places

/-! ## What a build can see -/

section Confined

variable (env : BuildEnvironment) (base : Place) (job : Job) (id : BuildId)

/-- A plain file system on which the build root is at `base` and its path and that of
    the bindings file do not lead through what the build changes. -/
structure Grounded (fs : FileSystem) : Prop where
  plain : fs.Plain
  root : fs.stat env.buildRoot = .ok (base, .directory)
  base_directory : fs.node? base = some .directory
  root_way : ∀ q ∈ fs.way env.buildRoot, ¬ ownPlace base job id <+: q
  bindings_way : ∀ q ∈ fs.way env.bindingsFile, ¬ Touches base job id q

/-- Apart from what is in the build's own directory, the places of `D` on the way to
    it have been filled and nothing else has changed. -/
structure Confined (D : Place → Prop) (fs fs' : FileSystem) : Prop where
  cwd : fs'.cwd = fs.cwd
  filled : ∀ q, ¬ ownPlace base job id <+: q → D q → fs'.nodes[q]? = some (fs.settled q)
  kept : ∀ q, ¬ ownPlace base job id <+: q → ¬ D q → fs'.nodes[q]? = fs.nodes[q]?
  touches : ∀ q, D q → Touches base job id q

/-- Two sites look the same to a build, except that directories on the way to its own
    may be missing. -/
structure Alike (s s' : Site) : Prop where
  grounded : Grounded env base job id s.fs
  grounded' : Grounded env base job id s'.fs
  calls : s.calls = s'.calls
  events : s.events = s'.events
  cwd : s.fs.cwd = s'.fs.cwd
  outer : ∀ q : Place, ¬ (base <+: q ∧ q ≠ base) → s.fs.nodes[q]? = s'.fs.nodes[q]?
  bindings : ∀ q ∈ s.fs.way env.bindingsFile, s.fs.nodes[q]? = s'.fs.nodes[q]?
  shared : ∀ q ∈ sharedPlaces base job, s.fs.settled q = s'.fs.settled q
  own : ∀ q : Place, ownPlace base job id <+: q → s.fs.nodes[q]? = s'.fs.nodes[q]?

/-- The directories on the way to the build's own are there. -/
def Placed (fs : FileSystem) : Prop :=
  ∀ q ∈ sharedPlaces base job, fs.nodes[q]? = some .directory

/-- From `s` and `s'`, a step has come to the same, with `Q` afterwards if it has not
    ended the build. -/
structure Tied {α : Type} (Q : FileSystem → Prop) (s s' : Site) (r r' : Except Halt α × Site) :
    Prop where
  result : r.1 = r'.1
  alike : Alike env base job id r.2 r'.2
  grown : ∃ D, Confined base job id D s.fs r.2.fs ∧ Confined base job id D s'.fs r'.2.fs
  post : ∀ a, r.1 = .ok a → Q r.2.fs ∧ Q r'.2.fs

/-- On sites that look the same and satisfy `P`, the step comes to the same. -/
def Parallel {α : Type} (P : FileSystem → Prop) (b : Build α) (Q : FileSystem → Prop) : Prop :=
  ∀ s s', Alike env base job id s s' → P s.fs → P s'.fs →
    Tied env base job id Q s s' (on b s) (on b s')

end Confined

section

variable {env : BuildEnvironment} {base : Place} {job : Job} {id : BuildId}
variable {D E : Place → Prop} {fs fs' fs'' : FileSystem}

namespace Confined

theorem refl (fs : FileSystem) : Confined base job id (fun _ => False) fs fs :=
  ⟨rfl, fun _ _ => False.elim, fun _ _ _ => rfl, fun _ => False.elim⟩

theorem settled_eq (h : Confined base job id D fs fs') {q : Place}
    (hq : ¬ ownPlace base job id <+: q) : fs'.settled q = fs.settled q := by
  by_cases hD : D q
  · rw [settled, h.filled q hq hD, Option.getD_some]
  · rw [settled, h.kept q hq hD, settled]

theorem trans (h : Confined base job id D fs fs') (h' : Confined base job id E fs' fs'') :
    Confined base job id (fun q => D q ∨ E q) fs fs'' where
  cwd := h'.cwd.trans h.cwd
  filled := by
    intro q hq hDE
    by_cases hE : E q
    · rw [h'.filled q hq hE, h.settled_eq hq]
    · rw [h'.kept q hq hE]
      exact h.filled q hq (hDE.resolve_right hE)
  kept := by
    intro q hq hDE
    rw [not_or] at hDE
    rw [h'.kept q hq hDE.2, h.kept q hq hDE.1]
  touches := by
    rintro q (hD | hE)
    · exact h.touches q hD
    · exact h'.touches q hE

theorem getElem?_of_some (h : Confined base job id D fs fs') {q : Place} {node : Node}
    (hown : ¬ ownPlace base job id <+: q) (hq : fs.nodes[q]? = some node) :
    fs'.nodes[q]? = some node := by
  by_cases hD : D q
  · rw [h.filled q hown hD, settled, hq, Option.getD_some]
  · rw [h.kept q hown hD, hq]

theorem getElem?_of_not_touches (h : Confined base job id D fs fs') {q : Place}
    (hq : ¬ Touches base job id q) : fs'.nodes[q]? = fs.nodes[q]? :=
  h.kept q (fun hown => hq (.inr hown)) fun hD => hq (h.touches q hD)

theorem way_eq (h : Confined base job id D fs fs') (path : String) : fs'.way path = fs.way path := by
  rw [FileSystem.way, FileSystem.origin, h.cwd, FileSystem.way, FileSystem.origin]

theorem placed (h : Confined base job id D fs fs') (hfs : Placed base job fs) :
    Placed base job fs' :=
  fun q hq => h.getElem?_of_some (not_own_of_shared hq) (hfs q hq)

theorem grounded (h : Confined base job id D fs fs') (hfs : Grounded env base job id fs)
    (hplain : fs'.Plain) : Grounded env base job id fs' where
  plain := hplain
  root := by
    rw [← hfs.root]
    refine hplain.stat_congr hfs.plain h.cwd fun q hq => ?_
    rw [h.way_eq] at hq
    have hdir := FileSystem.directory_of_mem_trail (hfs.plain.reach_of_stat hfs.root).2 q hq
    rw [h.getElem?_of_some (hfs.root_way q hq) hdir, hdir]
  base_directory := by
    have hbase := hfs.base_directory
    have hown : ¬ ownPlace base job id <+: base := fun hown => (below_of_own hown).2 rfl
    unfold FileSystem.node? at hbase ⊢
    split
    · rfl
    · next hne =>
      rw [if_neg hne] at hbase
      exact h.getElem?_of_some hown hbase
  root_way := by
    rw [h.way_eq]
    exact hfs.root_way
  bindings_way := by
    rw [h.way_eq]
    exact hfs.bindings_way

end Confined

/-- Confined changes that come to the same in the build's own directory keep sites
    alike. -/
theorem Alike.confined {s s' t t' : Site} (h : Alike env base job id s s')
    (hs : Confined base job id D s.fs t.fs) (hs' : Confined base job id D s'.fs t'.fs)
    (ht : t.fs.Plain) (ht' : t'.fs.Plain) (hcalls : t.calls = t'.calls)
    (hevents : t.events = t'.events)
    (hown : ∀ q : Place, ownPlace base job id <+: q → t.fs.nodes[q]? = t'.fs.nodes[q]?) :
    Alike env base job id t t' where
  grounded := hs.grounded h.grounded ht
  grounded' := hs'.grounded h.grounded' ht'
  calls := hcalls
  events := hevents
  cwd := by rw [hs.cwd, hs'.cwd, h.cwd]
  outer := by
    intro q hq
    have htouches : ¬ Touches base job id q := fun htouches => hq (below_of_touches htouches)
    rw [hs.getElem?_of_not_touches htouches, hs'.getElem?_of_not_touches htouches, h.outer q hq]
  bindings := by
    intro q hq
    rw [hs.way_eq] at hq
    have htouches := h.grounded.bindings_way q hq
    rw [hs.getElem?_of_not_touches htouches, hs'.getElem?_of_not_touches htouches, h.bindings q hq]
  shared := by
    intro q hq
    rw [hs.settled_eq (not_own_of_shared hq), hs'.settled_eq (not_own_of_shared hq), h.shared q hq]
  own := hown

/-! ## Steps in parallel -/

namespace Parallel

variable {α β : Type} {P Q R : FileSystem → Prop}

theorem pure (a : α) : Parallel env base job id P (Pure.pure a) P := by
  intro s s' h hs hs'
  exact ⟨rfl, h, ⟨_, .refl _, .refl _⟩, fun _ _ => ⟨hs, hs'⟩⟩

theorem halt (h : Halt) : Parallel env base job id P (throw h : Build α) Q := by
  intro s s' halike hs hs'
  exact ⟨rfl, halike, ⟨_, .refl _, .refl _⟩, nofun⟩

theorem check (stage : Stage) (r : Except StageError α) :
    Parallel env base job id P (Build.check stage r) P := by
  cases r with
  | ok a => exact .pure a
  | error cause => exact .halt _

theorem inspect {f : FileSystem → α}
    (h : ∀ s s', Alike env base job id s s' → P s.fs → P s'.fs → f s.fs = f s'.fs) :
    Parallel env base job id P (Build.inspect f) P := by
  intro s s' halike hs hs'
  exact ⟨congrArg Except.ok (h s s' halike hs hs'), halike, ⟨_, .refl _, .refl _⟩,
    fun _ _ => ⟨hs, hs'⟩⟩

theorem mono {b : Build α} (h : Parallel env base job id P b Q) (hQ : ∀ fs, Q fs → R fs) :
    Parallel env base job id P b R := by
  intro s s' halike hs hs'
  obtain ⟨hresult, halike', hgrown, hpost⟩ := h s s' halike hs hs'
  exact ⟨hresult, halike', hgrown, fun a ha => ⟨hQ _ (hpost a ha).1, hQ _ (hpost a ha).2⟩⟩

theorem bind {b : Build α} {f : α → Build β} (hb : Parallel env base job id P b Q)
    (hf : ∀ a, Parallel env base job id Q (f a) R) : Parallel env base job id P (b >>= f) R := by
  intro s s' halike hs hs'
  have hfirst := hb s s' halike hs hs'
  rw [on_bind, on_bind]
  generalize on b s = x at hfirst
  generalize on b s' = x' at hfirst
  obtain ⟨r, t⟩ := x
  obtain ⟨r', t'⟩ := x'
  obtain ⟨hresult, halike', ⟨D, hD, hD'⟩, hpost⟩ := hfirst
  obtain rfl : r = r' := hresult
  cases r with
  | error e => exact ⟨rfl, halike', ⟨D, hD, hD'⟩, nofun⟩
  | ok a =>
    obtain ⟨hQ, hQ'⟩ := hpost a rfl
    obtain ⟨hresult', halike'', ⟨E, hE, hE'⟩, hpost'⟩ := hf a t t' halike' hQ hQ'
    exact ⟨hresult', halike'', ⟨_, hD.trans hE, hD'.trans hE'⟩, hpost'⟩

/-- A report changes nothing that a build looks at. -/
theorem alike_events {s s' : Site} (h : Alike env base job id s s') (more : List Event) :
    Alike env base job id { s with events := s.events ++ more }
      { s' with events := s'.events ++ more } :=
  { h with events := congrArg (· ++ more) h.events }

theorem report (e : Event) : Parallel env base job id P (Build.report e) P := by
  intro s s' h hs hs'
  exact ⟨rfl, alike_events h [e], ⟨_, .refl _, .refl _⟩, fun _ _ => ⟨hs, hs'⟩⟩

theorem reporting {b : Build α} (hb : Parallel env base job id P b Q) :
    Parallel env base job id P (Build.reporting b) Q := by
  intro s s' h hs hs'
  have hfirst := hb s s' h hs hs'
  rw [on_reporting, on_reporting]
  generalize on b s = x at hfirst
  generalize on b s' = x' at hfirst
  obtain ⟨r, t⟩ := x
  obtain ⟨r', t'⟩ := x'
  obtain ⟨hresult, halike, hgrown, hpost⟩ := hfirst
  obtain rfl : r = r' := hresult
  cases r with
  | error e => exact ⟨rfl, alike_events halike e.notice, hgrown, nofun⟩
  | ok a => exact ⟨rfl, halike, hgrown, hpost⟩

/-! ## Running programs -/

theorem ready_of_placed {fs : FileSystem} (hfs : Grounded env base job id fs)
    (hplaced : Placed base job fs) : Ready (ownPlace base job id) fs where
  plain := hfs.plain
  parent := by
    have hdrop : (ownPlace base job id).dropLast = base ++ [job.profile] ++ [job.repo] := by
      have hown : ownPlace base job id = base ++ [job.profile] ++ [job.repo] ++ [id.text] := by
        simp [ownPlace]
      rw [hown, List.dropLast_concat]
    rw [hdrop, FileSystem.node?_concat]
    exact hplaced _ (by simp [sharedPlaces])

theorem invoke (hseparate : Separate env base job id) (hlinkless : Linkless env base job id)
    {i : Invocation} (hi : Issues job (Layout.of env.buildRoot job.profile job.repo id) i) :
    Parallel env base job id (Placed base job) (Build.invoke env i) (Placed base job) := by
  intro s s' h hs hs'
  have hlocal := hseparate.runs i hi
  have hready := ready_of_placed h.grounded hs
  have hready' := ready_of_placed h.grounded' hs'
  have hconfined : Confined base job id (fun _ => False) s.fs (env.run i s.fs).2 :=
    ⟨hlocal.cwd hready, fun _ _ => False.elim, fun q hq _ => hlocal.outside hready q hq,
      fun _ => False.elim⟩
  have hconfined' : Confined base job id (fun _ => False) s'.fs (env.run i s'.fs).2 :=
    ⟨hlocal.cwd hready', fun _ _ => False.elim, fun q hq _ => hlocal.outside hready' q hq,
      fun _ => False.elim⟩
  obtain ⟨houtcome, hinside⟩ := hlocal.inside hready hready' h.cwd h.own
  rw [on_invoke, on_invoke]
  refine ⟨congrArg Except.ok houtcome, ?_, ⟨_, hconfined, hconfined'⟩, fun _ _ =>
    ⟨hconfined.placed hs, hconfined'.placed hs'⟩⟩
  exact h.confined hconfined hconfined' (hlinkless i hi _ hready) (hlinkless i hi _ hready')
    (congrArg (· ++ [i]) h.calls) h.events hinside

theorem runChecked (hseparate : Separate env base job id) (hlinkless : Linkless env base job id)
    {stage : Stage} {i : Invocation}
    (hi : Issues job (Layout.of env.buildRoot job.profile job.repo id) i) :
    Parallel env base job id (Placed base job) (Build.runChecked env stage i)
      (Placed base job) := by
  refine (invoke hseparate hlinkless hi).bind fun outcome => ?_
  cases outcome with
  | exited status =>
    dsimp only
    split
    · exact .pure ()
    · exact .halt _
  | notStarted cause => exact .halt _
  | crashed => exact .halt _

/-! ## Directories -/

theorem confined_of_filled {fs fs' : FileSystem} (h : Filled D fs fs')
    (htouches : ∀ q, D q → Touches base job id q) : Confined base job id D fs fs' :=
  ⟨h.cwd, fun q _ => h.filled q, fun q _ => h.kept q, htouches⟩

/-- To make sure of a directory on the way or at the build's own comes to the same. -/
theorem provision {stage : Stage} {name : String} {up : List String}
    (hnames : ∀ n ∈ name :: up, Ordinary n)
    (htrail : ∀ q ∈ trail base (up.reverse ++ [name]), Touches base job id q)
    (hdone : ∀ fs : FileSystem,
      (∀ q ∈ trail base (up.reverse ++ [name]), fs.nodes[q]? = some .directory) → Q fs) :
    Parallel env base job id P (Build.provision stage (under env.buildRoot (name :: up))) Q := by
  intro s s' h hs hs'
  rw [on_provision, on_provision,
    FileSystem.ensureDir_under h.grounded.plain h.grounded.root h.grounded.base_directory hnames,
    FileSystem.ensureDir_under h.grounded'.plain h.grounded'.root h.grounded'.base_directory hnames]
  cases FileSystem.fault (under env.buildRoot (name :: up)) with
  | some e => exact ⟨rfl, h, ⟨_, .refl _, .refl _⟩, fun _ hok => by cases hok⟩
  | none =>
    have hown : ∀ q : Place, ownPlace base job id <+: q → s.fs.settled q = s'.fs.settled q := by
      intro q hq
      rw [settled, settled, h.own q hq]
    have hsettled : ∀ q ∈ trail base (up.reverse ++ [name]), s.fs.settled q = s'.fs.settled q := by
      intro q hq
      obtain hshared | hq := htrail q hq
      · exact h.shared q hshared
      · exact hown q hq
    have hordinary : ∀ n ∈ up.reverse ++ [name], Ordinary n := by
      intro n hn
      rw [← List.reverse_cons, List.mem_reverse] at hn
      exact hnames n hn
    obtain ⟨D, hresult, hon, hleft, hright, hcomplete⟩ :=
      FileSystem.exists_descent hordinary hsettled
    have hplain := h.grounded.plain.makeDirs h.grounded.base_directory (up.reverse ++ [name])
    have hplain' := h.grounded'.plain.makeDirs h.grounded'.base_directory (up.reverse ++ [name])
    have htouches : ∀ q, D q → Touches base job id q := fun q hq => htrail q (hon q hq)
    dsimp only
    generalize makeDirs s.fs base (up.reverse ++ [name]) = x at *
    generalize makeDirs s'.fs base (up.reverse ++ [name]) = x' at *
    obtain ⟨r, fs⟩ := x
    obtain ⟨r', fs'⟩ := x'
    obtain rfl : r = r' := hresult
    have hconfined := confined_of_filled hleft htouches
    have hconfined' := confined_of_filled hright htouches
    have halike : Alike env base job id { s with fs } { s' with fs := fs' } := by
      refine h.confined hconfined hconfined' hplain hplain' h.calls h.events fun q hq => ?_
      dsimp only
      by_cases hD : D q
      · rw [hleft.filled q hD, hright.filled q hD, hown q hq]
      · rw [hleft.kept q hD, hright.kept q hD, h.own q hq]
    cases r with
    | error e => exact ⟨rfl, halike, ⟨D, hconfined, hconfined'⟩, fun _ hok => by cases hok⟩
    | ok =>
      refine ⟨rfl, halike, ⟨D, hconfined, hconfined'⟩, fun _ _ => ⟨hdone _ ?_, hdone _ ?_⟩⟩
      · intro q hq
        obtain ⟨hD, hdir⟩ := hcomplete rfl q hq
        exact (hleft.filled q hD).trans (congrArg some hdir)
      · intro q hq
        obtain ⟨hD, hdir⟩ := hcomplete rfl q hq
        exact (hright.filled q hD).trans (congrArg some ((hsettled q hq).symm.trans hdir))

end Parallel

/-! ## The whole build -/

theorem ordinary_text (id : BuildId) : Ordinary id.text where
  ne_empty := id.text_ne (by decide)
  ne_dot := id.text_ne (by decide)
  ne_up := id.text_ne (by decide)
  no_slash := id.not_mem_text (by decide)

theorem ordinary_sources : Ordinary "repo" := ⟨by decide, by decide, by decide, by decide⟩

theorem ordinary_binaries : Ordinary "build" := ⟨by decide, by decide, by decide, by decide⟩

/-- The trail to the build's own directory and on from there. -/
theorem trail_own (h : Separate env base job id) (rest : List String) :
    trail base ([job.profile, job.repo, id.text] ++ rest) =
      sharedPlaces base job ++ ownPlace base job id :: trail (ownPlace base job id) rest := by
  simp only [List.cons_append, List.nil_append, FileSystem.trail_cons h.profile,
    FileSystem.trail_cons h.repo, FileSystem.trail_cons (ordinary_text id), sharedPlaces, ownPlace,
    List.append_assoc]

theorem touches_of_mem_trail (h : Separate env base job id) {rest : List String}
    (hrest : ".." ∉ rest) {q : Place}
    (hq : q ∈ trail base ([job.profile, job.repo, id.text] ++ rest)) : Touches base job id q := by
  rw [trail_own h, List.mem_append, List.mem_cons] at hq
  obtain hq | rfl | hq := hq
  · exact .inl hq
  · exact .inr List.prefix_rfl
  · exact .inr (FileSystem.prefix_of_mem_trail hrest hq)

section Steps

variable {P : FileSystem → Prop}

theorem parallel_findGit (hlocate : LocatesOutside env base) :
    Parallel env base job id P (findGit env job) P := by
  refine (Parallel.inspect fun s s' h _ _ => hlocate _ _ h.cwd h.outer gitTool).bind fun found => ?_
  cases found with
  | some git => exact .pure git
  | none => exact (Parallel.report _).bind fun _ => .halt _

theorem loadOptional_congr {fs fs' : FileSystem} {path : String} (h : fs.stat path = fs'.stat path)
    (role : FileRole) :
    Settings.loadOptional fs role path = Settings.loadOptional fs' role path := by
  rw [Settings.loadOptional, Settings.loadOptional, h]

theorem parallel_loadBindings : Parallel env base job id P (loadBindings env) P := by
  refine (Parallel.inspect fun s s' h _ _ => ?_).bind fun loaded => ?_
  · exact loadOptional_congr
      (h.grounded.plain.stat_congr h.grounded'.plain h.cwd h.bindings) bindingsRole
  refine (Parallel.check _ _).bind fun settings => ?_
  cases settings with
  | some settings => exact .pure _
  | none => exact (Parallel.report _).bind fun _ => .pure _

theorem parallel_checkout (h : Separate env base job id) (hlinkless : Linkless env base job id)
    (git : String) :
    Parallel env base job id (Placed base job)
      (checkout env git job (Layout.of env.buildRoot job.profile job.repo id))
      (Placed base job) := by
  unfold checkout
  split
  · exact .halt _
  · refine (Parallel.runChecked h hlinkless (.clone git)).bind fun _ => ?_
    exact .runChecked h hlinkless (.checkOut git)

/-- The configuration of the sources is found in the same way. -/
theorem stat_config (h : Separate env base job id) {s s' : Site} (halike : Alike env base job id s s')
    (hs : Placed base job s.fs) (hs' : Placed base job s'.fs) :
    let path := Path.join (Layout.of env.buildRoot job.profile job.repo id).sources job.config
    s.fs.stat path = s'.fs.stat path := by
  intro path
  have hnames : ∀ n ∈ ["repo", id.text, job.repo, job.profile], Ordinary n := by
    simp [ordinary_text id, h.repo, h.profile, ordinary_sources]
  obtain ⟨hfault, hbase⟩ := halike.grounded.plain.reach_of_stat halike.grounded.root
  obtain ⟨-, hbase'⟩ := halike.grounded'.plain.reach_of_stat halike.grounded'.root
  have hroot : env.buildRoot ≠ "" := by
    intro hempty
    rw [hempty] at hfault
    cases hfault
  have hne := Path.under_ne_empty hroot ["repo", id.text, job.repo, job.profile]
  have hpath : path = Path.join (under env.buildRoot ["repo", id.text, job.repo, job.profile])
      job.config := rfl
  have hsegments : Path.segments path = Path.stem env.buildRoot ++
      ([job.profile, job.repo, id.text] ++ "repo" :: Path.segments job.config) := by
    rw [hpath, Path.segments_join hne h.config_relative, Path.stem_under hroot hnames]
    simp
  have horigin (fs : FileSystem) : fs.origin path = fs.origin env.buildRoot := by
    rw [FileSystem.origin, FileSystem.origin, hpath,
      Path.isAbsolute_join hne h.config_relative, Path.isAbsolute_under hroot hnames]
  have hreach : s.fs.reach (s.fs.origin path) (Path.segments path) =
      s'.fs.reach (s'.fs.origin path) (Path.segments path) := by
    rw [hsegments, horigin, horigin, FileSystem.reach_stem hbase, FileSystem.reach_stem hbase']
    refine FileSystem.reach_congr fun q hq => ?_
    have hdown : ".." ∉ "repo" :: Path.segments job.config := by simp [h.config_down]
    rw [trail_own h, List.mem_append, List.mem_cons] at hq
    obtain hq | rfl | hq := hq
    · rw [hs q hq, hs' q hq]
    · exact halike.own _ List.prefix_rfl
    · refine halike.own q (FileSystem.prefix_of_mem_trail hdown hq)
  rw [FileSystem.stat, FileSystem.stat, halike.grounded.plain.walk_eq,
    halike.grounded'.plain.walk_eq, hreach]

theorem parallel_loadConfig (h : Separate env base job id) :
    Parallel env base job id (Placed base job)
      (loadConfig job (Layout.of env.buildRoot job.profile job.repo id)) (Placed base job) := by
  refine (Parallel.inspect fun s s' halike hs hs' => ?_).bind fun loaded => .check _ _
  have hstat := stat_config h halike hs hs'
  rw [Settings.load, Settings.load, loadOptional_congr hstat]

theorem parallel_configure (h : Separate env base job id) (hlinkless : Linkless env base job id)
    (hlocate : LocatesOutside env base) (config : Settings) (b : Bindings) :
    Parallel env base job id (Placed base job)
      (configure env config b job (Layout.of env.buildRoot job.profile job.repo id))
      (Placed base job) := by
  refine (Parallel.check _ _).bind fun words => ?_
  match words with
  | none => exact (Parallel.report _).bind fun _ => .pure _
  | some [] => exact .halt _
  | some (tool :: args) =>
    refine (Parallel.inspect fun s s' h _ _ => hlocate _ _ h.cwd h.outer tool).bind fun found => ?_
    cases found with
    | none => exact .halt _
    | some program =>
      exact (Parallel.runChecked h hlinkless (.configure program args)).bind fun _ => .pure _

/-- To make sure of the build's own directory, or of one in it, places the way to it. -/
theorem parallel_provision (h : Separate env base job id) {stage : Stage} (name : String)
    (up rest : List String)
    (hpath : up.reverse ++ [name] = [job.profile, job.repo, id.text] ++ rest)
    (hrest : ∀ n ∈ rest, Ordinary n) :
    Parallel env base job id P (provision stage (under env.buildRoot (name :: up)))
      (Placed base job) := by
  have hnames : ∀ n ∈ name :: up, Ordinary n := by
    intro n hn
    rw [← List.mem_reverse, List.reverse_cons, hpath] at hn
    simp only [List.cons_append, List.nil_append, List.mem_cons] at hn
    obtain rfl | rfl | rfl | hn := hn
    · exact h.profile
    · exact h.repo
    · exact ordinary_text id
    · exact hrest n hn
  have hdown : ".." ∉ rest := fun hup => (hrest _ hup).ne_up rfl
  refine Parallel.provision hnames ?_ ?_
  · rw [hpath]
    exact fun q hq => touches_of_mem_trail h hdown hq
  · rw [hpath, trail_own h]
    exact fun fs hfs q hq => hfs q (List.mem_append_left _ hq)

theorem parallel_stages (h : Separate env base job id) (hlinkless : Linkless env base job id)
    (hlocate : LocatesOutside env base) (git : String) :
    Parallel env base job id P (stages env git job id) (Placed base job) := by
  have htoplevel : Parallel env base job id P (provision .provisionToplevel
      (Layout.of env.buildRoot job.profile job.repo id).toplevel) (Placed base job) :=
    parallel_provision h id.text [job.repo, job.profile] [] rfl (by simp)
  have hbinaries : Parallel env base job id (Placed base job) (provision .provisionBinaryDir
      (Layout.of env.buildRoot job.profile job.repo id).binaries) (Placed base job) :=
    parallel_provision h "build" [id.text, job.repo, job.profile] ["build"] rfl
      (by simp [ordinary_binaries])
  refine htoplevel.bind fun _ => ?_
  refine parallel_loadBindings.bind fun b => ?_
  refine (parallel_checkout h hlinkless git).bind fun _ => ?_
  refine hbinaries.bind fun _ => ?_
  refine (parallel_loadConfig h).bind fun config => ?_
  exact (parallel_configure h hlinkless hlocate config _).bind fun configured => .pure _

/-- A confined build comes to the same on sites that look the same to it. -/
theorem parallel_build (h : Separate env base job id) (hlinkless : Linkless env base job id)
    (hlocate : LocatesOutside env base) :
    Parallel env base job id (fun _ => True) (build env job id) fun _ => True := by
  refine (parallel_findGit hlocate).bind fun git => ?_
  exact (parallel_stages h hlinkless hlocate git).reporting.mono fun _ _ => trivial

end Steps

end

end BuildServer.Build
