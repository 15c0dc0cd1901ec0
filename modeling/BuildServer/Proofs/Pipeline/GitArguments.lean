-- SUMMARY: What git takes the arguments of a build for: no text of a request or of a repository becomes an option.
import BuildServer.Proofs.Pipeline.Gates

/-!
# Arguments of git

Git reads options up to the first `--`, and some options take the argument after
them as their value, whatever it looks like. A build puts the branch behind such an
option and the address behind the `--`. The revision has neither in front of it, so
one that looks like an option ends the build before git is asked for anything.
-/

namespace BuildServer

/-! ## Reading arguments -/

/-- An argument that is read as an option wherever options are read. -/
def LooksLikeOption (arg : String) : Prop :=
  arg.toList.head? = some '-'

instance (arg : String) : Decidable (LooksLikeOption arg) :=
  inferInstanceAs (Decidable (arg.toList.head? = some '-'))

/-- The arguments of a command of git, by what they are taken for. -/
structure GitArguments where
  /-- Options with their values. -/
  options : List (String × Option String)
  /-- Arguments in front of the first `--`. -/
  leading : List String
  /-- Arguments behind the first `--`. -/
  trailing : List String
  deriving DecidableEq, Repr

namespace GitArguments

def addOption (name : String) (value : Option String) (a : GitArguments) : GitArguments :=
  { a with options := (name, value) :: a.options }

def addLeading (arg : String) (a : GitArguments) : GitArguments :=
  { a with leading := arg :: a.leading }

end GitArguments

/-- The options of git that take the next argument as their value. The one that names a
    branch is among them, the one for submodules is not. -/
structure GitOptions where
  takesValue : String → Bool
  branch : takesValue "-b" = true
  recursive : takesValue "--recursive" = false

instance : Inhabited GitOptions := ⟨(· == "-b"), rfl, rfl⟩

namespace GitOptions

/-- Read arguments, maybe behind an option that waits for its value. -/
def readAfter (g : GitOptions) : Option String → List String → GitArguments
  | none, [] => ⟨[], [], []⟩
  | some name, [] => ⟨[(name, none)], [], []⟩
  | some name, value :: args => (g.readAfter none args).addOption name (some value)
  | none, arg :: args =>
    if arg = "--" then ⟨[], [], args⟩
    else if LooksLikeOption arg then
      if g.takesValue arg then g.readAfter (some arg) args
      else (g.readAfter none args).addOption arg none
    else (g.readAfter none args).addLeading arg

def read (g : GitOptions) (args : List String) : GitArguments :=
  g.readAfter none args

variable (g : GitOptions)

/-- Nothing behind the separator is an option. -/
theorem read_separator (args : List String) : g.read ("--" :: args) = ⟨[], [], args⟩ := by
  rw [read, readAfter, if_pos rfl]

/-- The value of an option is no option. -/
theorem read_branch (value : String) (args : List String) :
    g.read ("-b" :: value :: args) = (g.read args).addOption "-b" (some value) := by
  rw [read, readAfter, if_neg (by decide), if_pos (by decide), if_pos g.branch, readAfter, read]

theorem read_recursive (args : List String) :
    g.read ("--recursive" :: args) = (g.read args).addOption "--recursive" none := by
  rw [read, readAfter, if_neg (by decide), if_pos (by decide), if_neg (by simp [g.recursive]), read]

theorem read_plain {arg : String} (h : ¬ LooksLikeOption arg) (args : List String) :
    g.read (arg :: args) = (g.read args).addLeading arg := by
  have hseparator : arg ≠ "--" := by
    rintro rfl
    exact h rfl
  rw [read, readAfter, if_neg hseparator, if_neg h, read]

end GitOptions

namespace Build

variable {env : BuildEnvironment} {job : Job} {id : BuildId}

theorem read_clone (g : GitOptions) (git : String) (job : Job) (layout : Layout) :
    ∃ args, (cloneCall git job layout).args = "clone" :: args ∧
      g.read args = ⟨[("--recursive", none), ("-b", some job.branch)], [], [job.url, layout.sources]⟩ := by
  refine ⟨_, rfl, ?_⟩
  rw [g.read_recursive, g.read_branch, g.read_separator]
  rfl

theorem read_checkout (g : GitOptions) (git : String) (layout : Layout)
    (h : ¬ LooksLikeOption job.revision) :
    ∃ args, (checkoutCall git job layout).args = "checkout" :: args ∧
      g.read args = ⟨[], [job.revision], ["."]⟩ := by
  refine ⟨_, rfl, ?_⟩
  rw [g.read_plain h, g.read_separator]
  rfl

/-! ## Refused revisions -/

theorem on_acceptRevision (h : LooksLikeOption job.revision) (p : Progress) (s : Site) :
    on (Gate.acceptRevision.attempt env job id p) s =
      (.error (.failed ⟨.checkout, .optionLikeRevision job.revision⟩), s) := by
  rw [LooksLikeOption] at h
  simp [Gate.attempt, h, fail_bind, -bind_pure_comp]

/-- No build passes the gate at which its revision is refused. -/
theorem acceptRevision_not_mem (h : LooksLikeOption job.revision) {gates : List Gate} {s t : Site}
    {p : Progress} (hpasses : Passes env job id gates s p t) : .acceptRevision ∉ gates := by
  intro hmem
  obtain ⟨before, after, rfl⟩ := List.append_of_mem hmem
  obtain ⟨q, reached, -, hafter⟩ := passes_append before (.acceptRevision :: after) hpasses
  rw [meet_cons, on_bind, on_acceptRevision h] at hafter
  cases hafter

theorem mem_earlier_clone {g : Gate} (h : .acceptRevision ∉ g.earlier) : g ∈ Gate.clone.earlier := by
  cases g <;> revert h <;> decide

/-- A build with such a revision ends at this gate or at an earlier one. -/
theorem Ended.refused {site : Site} {calls : List Invocation}
    {ended : Except Halt BuildReport × Site} (hended : Ended env job id site calls ended)
    (h : LooksLikeOption job.revision) :
    calls = [] ∧ ∃ e, ended.1 = .error (.failed e) ∧
      (e = ⟨.checkout, .optionLikeRevision job.revision⟩ ∨
        e.stage ∈ [Stage.resolveTools, .provisionToplevel, .loadBindings]) := by
  cases hended with
  | passed hpasses => exact absurd (by decide) (acceptRevision_not_mem h hpasses)
  | @stopped g p reached stopped halt events hpasses hg hfailed hcrashed =>
    have hearly := mem_earlier_clone (acceptRevision_not_mem h hpasses)
    cases halt with
    | crashed =>
      have hlate : ∀ g ∈ Gate.running, g ∉ Gate.clone.earlier := by decide
      exact absurd hearly (hlate g (hcrashed rfl))
    | failed e =>
      obtain ⟨hstage, hcount⟩ := hfailed e rfl
      cases g with
      | acceptRevision =>
        rw [on_acceptRevision h] at hg
        obtain ⟨⟩ := hg
        exact ⟨List.eq_nil_of_length_eq_zero hcount, _, rfl, .inl rfl⟩
      | findGit | createToplevel | readBindings =>
        rw [CallCount, hstage] at hcount
        exact ⟨List.eq_nil_of_length_eq_zero hcount, e, rfl, .inr (by simp [hstage, Gate.stage])⟩
      | _ => exact absurd hearly (by decide)

/-! ## Requests -/

/-- Whatever a job holds, git reads from the clone call the two options of the build and
    then the address and the directory, and from the checkout call no option, but the
    revision and the directory. With a revision that looks like an option nothing is run at
    all, and the build fails because of it, or at an earlier stage. -/
theorem git_reads_no_request (g : GitOptions) (env : BuildEnvironment) (job : Job) (id : BuildId)
    (site : Site) :
    let layout := Layout.of env.buildRoot job.profile job.repo id
    ∃ git program args calls,
      (runBuild env job id site).2.calls = site.calls ++ calls ∧
      calls <+: [cloneCall git job layout, checkoutCall git job layout,
        configureCall program args layout] ∧
      (∃ rest, (cloneCall git job layout).args = "clone" :: rest ∧ g.read rest =
        ⟨[("--recursive", none), ("-b", some job.branch)], [], [job.url, layout.sources]⟩) ∧
      (¬ LooksLikeOption job.revision →
        ∃ rest, (checkoutCall git job layout).args = "checkout" :: rest ∧
          g.read rest = ⟨[], [job.revision], ["."]⟩) ∧
      (LooksLikeOption job.revision → calls = [] ∧
        ∃ e, (runBuild env job id site).1 = .error (.failed e) ∧
          (e = ⟨.checkout, .optionLikeRevision job.revision⟩ ∨
            e.stage ∈ [Stage.resolveTools, .provisionToplevel, .loadBindings])) := by
  intro layout
  obtain ⟨git, program, args, calls, hprefix, hcalls, hended⟩ := exists_calls env job id site
  exact ⟨git, program, args, calls, hcalls, hprefix, read_clone g git job layout,
    read_checkout g git layout, hended.refused⟩

end Build

end BuildServer
