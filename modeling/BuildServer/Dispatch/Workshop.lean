-- SUMMARY: A dispatcher together with the builds that it starts and what comes of them.
import BuildServer.Dispatch.Dispatcher
import BuildServer.Pipeline.Basic

/-!
# Workshop

A workshop runs the builds of its dispatcher. How a build ends is settled when
it starts, since nothing else decides it; when it ends is another matter, and
until then it keeps its slot. Every ended build is reported once.
-/

namespace BuildServer

/-- A started build and how it ends. -/
structure BuildRun where
  job : Job
  result : Except Build.Halt BuildReport
  /-- Whether the build ran any program. -/
  ranPrograms : Bool

/-- What is reported about an ended build. -/
def BuildRun.outcome (r : BuildRun) : JournalEntry :=
  let about : List (String × String) := [("repo", r.job.repo), ("profile", r.job.profile)]
  match r.result with
  | .ok report =>
    .info "build succeeded" (about ++
      [("build_id", report.id.text), ("configured", toString report.configured),
        ("toplevel", report.layout.toplevel)])
  | .error (.failed e) =>
    .error "build failed" (about ++ [("stage", e.stage.label), ("error", e.cause.message)])
  | .error .crashed => .error "build pipeline panicked" about

structure Workshop where
  dispatcher : Dispatcher
  site : Site
  supply : BuildId.Supply
  /-- Builds that run, in the order of the dispatcher's running jobs. -/
  underway : List BuildRun
  /-- All builds that were started, in order. -/
  begun : List BuildRun
  /-- All builds that have ended, in order. -/
  ended : List BuildRun

namespace Workshop

def ofDispatcher (d : Dispatcher) (site : Site) (supply : BuildId.Supply) : Workshop :=
  ⟨d, site, supply, [], [], []⟩

def submit (job : Job) (w : Workshop) : Except Control.SubmitError Unit × Workshop :=
  let (answer, d) := w.dispatcher.submit job
  (answer, { w with dispatcher := d })

/-- Let the loop take a slot and a job, and start the build. -/
def takeJob (env : BuildEnvironment) (w : Workshop) : Option Workshop := do
  let armed := w.dispatcher.move .acquire
  let job ← armed.queue.head?
  let d ← armed.move? .receive
  let (id, supply) := w.supply.draw
  let (result, site) := runBuild env job id w.site
  let run : BuildRun := ⟨job, result, w.site.calls.length < site.calls.length⟩
  return { w with
    dispatcher := d
    site, supply
    underway := w.underway ++ [run]
    begun := w.begun ++ [run] }

/-- End the running builds that are ready, those that started first before the
    others. `position` is that of the first of the given builds. -/
def finishFrom (ready : BuildRun → Bool) : Nat → List BuildRun → Workshop → Workshop
  | _, [], w => w
  | position, run :: runs, w =>
    if ready run then
      finishFrom ready position runs { w with
        dispatcher := w.dispatcher.move (.finish position)
        underway := w.underway.eraseIdx position
        ended := w.ended ++ [run] }
    else finishFrom ready (position + 1) runs w

def finish (ready : BuildRun → Bool) (w : Workshop) : Workshop :=
  finishFrom ready 0 w.underway w

/-- Start builds and end those that are ready, until no job can be taken. The
    number bounds the jobs taken. -/
def settleFor (env : BuildEnvironment) (ready : BuildRun → Bool) : Nat → Workshop → Workshop
  | 0, w => w.finish ready
  | n + 1, w =>
    let w := w.finish ready
    match w.takeJob env with
    | some w => settleFor env ready n w
    | none => w

/-- Let everything happen that can. -/
def settle (env : BuildEnvironment) (ready : BuildRun → Bool) (w : Workshop) : Workshop :=
  let w := w.settleFor env ready w.dispatcher.queue.length
  { w with dispatcher := (w.dispatcher.move .acquire).move .leave }

/-- The workshop as the place where a control channel submits jobs. Everything
    that can happen happens between two submissions. -/
def sink (env : BuildEnvironment) (ready : BuildRun → Bool) : Control.Sink Workshop where
  submit job w :=
    let (answer, w) := w.submit job
    (answer, w.settle env ready)

end Workshop

end BuildServer
