-- SUMMARY: What a run that fails leaves behind, and when the server still tells the truth about itself.
import BuildServer.Dispatch.Dispatcher
import BuildServer.Proofs.Daemon.Lifecycle

/-!
# Failed runs

A run that is refused changes nothing. A run that has been accepted takes what was
prepared and gives nothing of it back, and it enters the phase of running before its event
loop is known to work. Only a run that returns leaves that phase. So after an accepted run
has failed, the server says for good that it is initialized, with nothing to run, or that
it is running, with no event loop.
-/

namespace BuildServer.Daemon

open Control (Flags)

variable {d d' : Daemon} {fate : LoopFate} {meanwhile : Flags → Flags} {e : DaemonError}

/-! ## Ways to fail -/

/-- How a run fails, and what it leaves. -/
inductive RunFails (d : Daemon) (meanwhile : Flags → Flags) :
    LoopFate → DaemonError → Daemon → Prop where
  | unprepared {fate : LoopFate} (h : d.prepared = none) :
      RunFails d meanwhile fate (.invalidState .run d.state) d
  | notStarted {prepared : Prepared} {reason : String} (h : d.prepared = some prepared) :
      RunFails d meanwhile (.notStarted reason) (.loop (.notStarted reason))
        { d with prepared := none }
  | crashed {prepared : Prepared} (h : d.prepared = some prepared) :
      RunFails d meanwhile .crashed (.loop .crashed) ⟨.running, meanwhile d.flags, none⟩

theorem run_eq_error_iff :
    d.run fate meanwhile = (.error e, d') ↔ RunFails d meanwhile fate e d' := by
  constructor
  · intro h
    cases hprepared : d.prepared with
    | none =>
      rw [run_of_none hprepared] at h
      obtain ⟨⟩ := h
      exact .unprepared hprepared
    | some prepared =>
      rw [run, take_of_some hprepared] at h
      cases fate with
      | notStarted reason =>
        obtain ⟨⟩ := h
        exact .notStarted hprepared
      | crashed =>
        obtain ⟨⟩ := h
        exact .crashed hprepared
      | ended => cases h
  · intro h
    cases h with
    | unprepared h => exact run_of_none h
    | notStarted h => rw [run, take_of_some h]
    | crashed h =>
      rw [run, take_of_some h]
      rfl

/-- Whatever was prepared is gone. -/
theorem RunFails.prepared_eq_none (h : RunFails d meanwhile fate e d') : d'.prepared = none := by
  cases h with
  | unprepared h => exact h
  | notStarted => rfl
  | crashed => rfl

/-! ## What a server says about itself -/

/-- A server that says it is initialized can be run, and one that is not run does not say
    that it is. -/
structure Consistent (d : Daemon) : Prop where
  prepared : d.state = .initialized → d.prepared.isSome
  not_running : d.state ≠ .running
  not_stopping : d.state ≠ .stopping

theorem state_eq_initialized : d.state = .initialized ↔ d.phase = .initialized := by
  unfold state
  split
  · next h => simp [h.1]
  · cases d.phase <;> simp [Phase.state]

theorem phase_eq_running : d.phase = .running ↔ d.state = .running ∨ d.state = .stopping := by
  unfold state
  split
  · next h => simp [h.1]
  · cases d.phase <;> simp [Phase.state]

theorem consistent_iff :
    d.Consistent ↔ (d.phase = .initialized → d.prepared.isSome) ∧ d.phase ≠ .running := by
  rw [← state_eq_initialized, ne_eq, phase_eq_running, not_or]
  exact ⟨fun h => ⟨h.prepared, h.not_running, h.not_stopping⟩, fun h => ⟨h.1, h.2.1, h.2.2⟩⟩

/-- A server between the calls of its owner. The mark says whether a run has failed that had
    been accepted. -/
inductive Past : Bool → Daemon → Prop where
  | new : Past false .new
  | init {lost : Bool} {d : Daemon} (h : Past lost d) (path : String) (fs : FileSystem) :
      Past lost (d.init path fs).daemon
  | stop {lost : Bool} {d : Daemon} (h : Past lost d) : Past lost d.stop
  | restart {lost : Bool} {d : Daemon} (h : Past lost d) : Past lost d.restart
  | returned {lost : Bool} {d d' : Daemon} {fate : LoopFate} {meanwhile : Flags → Flags}
      {x : Disposition} (h : Past lost d) (hrun : d.run fate meanwhile = (.ok x, d')) : Past lost d'
  | refused {lost : Bool} {d d' : Daemon} {fate : LoopFate} {meanwhile : Flags → Flags}
      {e : DaemonError} (h : Past lost d) (hprepared : d.prepared = none)
      (hrun : d.run fate meanwhile = (.error e, d')) : Past lost d'
  | failed {lost : Bool} {d d' : Daemon} {fate : LoopFate} {meanwhile : Flags → Flags}
      {e : DaemonError} (h : Past lost d) (hprepared : d.prepared.isSome)
      (hrun : d.run fate meanwhile = (.error e, d')) : Past true d'

/-- What phase and preparation tell about the past. -/
inductive Marked (d : Daemon) : Bool → Prop where
  | kept (hprepared : d.prepared.isSome ↔ d.phase = .initialized) (hphase : d.phase ≠ .running) :
      Marked d false
  | lost (hprepared : d.prepared = none) (hphase : d.phase = .initialized ∨ d.phase = .running) :
      Marked d true

theorem Marked.init {lost : Bool} (h : d.Marked lost) (path : String) (fs : FileSystem) :
    (d.init path fs).daemon.Marked lost := by
  obtain ⟨prepared, hphase, -, hdaemon⟩ | ⟨cause, -, hdaemon⟩ := d.init_cases path fs
  · rw [hdaemon]
    cases h with
    | kept => exact .kept (by simp) (by simp)
    | lost _ hentered => simp [hphase] at hentered
  · rwa [hdaemon]

/-- Nothing but phase and preparation matters. -/
theorem Marked.of_eq {lost : Bool} (h : d.Marked lost) (hphase : d'.phase = d.phase)
    (hprepared : d'.prepared = d.prepared) : d'.Marked lost := by
  cases h with
  | kept h h' => exact .kept (by rw [hphase, hprepared, h]) (by rwa [hphase])
  | lost h h' => exact .lost (by rw [hprepared, h]) (by rwa [hphase])

theorem Marked.not_lost {lost : Bool} (h : d.Marked lost) (hprepared : d.prepared.isSome) :
    lost = false ∧ d.phase = .initialized := by
  cases h with
  | kept h => exact ⟨rfl, h.mp hprepared⟩
  | lost h => simp [h] at hprepared

theorem run_ok_prepared {x : Disposition} (h : d.run fate meanwhile = (.ok x, d')) :
    d.prepared.isSome ∧ d'.prepared = none := by
  cases hprepared : d.prepared with
  | none =>
    rw [run_of_none hprepared] at h
    cases h
  | some prepared =>
    refine ⟨rfl, ?_⟩
    rw [run, take_of_some hprepared] at h
    cases fate with
    | notStarted reason => cases h
    | crashed => cases h
    | ended =>
      obtain ⟨⟩ := h
      rfl

theorem Past.marked {lost : Bool} (h : Past lost d) : d.Marked lost := by
  -- A run that takes something finds the mark unset, since nothing is prepared once it is set.
  induction h with
  | new => exact .kept (by simp [Daemon.new]) (by simp [Daemon.new])
  | init _ path fs ih => exact ih.init path fs
  | stop _ ih => exact ih.of_eq rfl rfl
  | restart _ ih => exact ih.of_eq rfl rfl
  | returned _ hrun ih =>
    obtain ⟨hprepared, hgone⟩ := run_ok_prepared hrun
    obtain ⟨rfl, -⟩ := ih.not_lost hprepared
    have hphase := (run_eq_ok hrun).1
    exact .kept (by simp [hgone, hphase]) (by simp [hphase])
  | refused _ hprepared hrun ih =>
    rw [run_of_none hprepared] at hrun
    obtain ⟨⟩ := hrun
    exact ih
  | failed _ hprepared hrun ih =>
    have hphase := (ih.not_lost hprepared).2
    cases run_eq_error_iff.mp hrun with
    | unprepared h => simp [h] at hprepared
    | notStarted => exact .lost rfl (.inl hphase)
    | crashed => exact .lost rfl (.inr rfl)

/-- A server is consistent as long as no run has failed that had been accepted, and never
    again after that. -/
theorem Past.consistent_iff {lost : Bool} (h : Past lost d) : d.Consistent ↔ lost = false := by
  rw [Daemon.consistent_iff]
  cases h.marked with
  | kept hprepared hphase => exact iff_of_true ⟨hprepared.mpr, hphase⟩ rfl
  | lost hprepared hphase =>
    refine iff_of_false ?_ nofun
    rintro ⟨hinitialized, hrunning⟩
    have hsome := hinitialized (hphase.resolve_right hrunning)
    simp [hprepared] at hsome

/-- A failed run leaves a consistent server if and only if it was refused and no accepted run
    has failed before. In any case, no further run is accepted. One that could not start its
    event loop leaves a server that says it is initialized, and one whose event loop has
    crashed leaves a server that says it is running or, with its stop flag set, stopping. -/
theorem consistent_of_failed_run_iff {lost : Bool} (h : Past lost d)
    (hrun : d.run fate meanwhile = (.error e, d')) :
    (d'.Consistent ↔ lost = false ∧ d.prepared = none) ∧
    (∀ fate meanwhile, d'.run fate meanwhile = (.error (.invalidState .run d'.state), d')) ∧
    (d.prepared = none → e = .invalidState .run d.state ∧ d' = d) ∧
    (∀ reason, d.prepared.isSome → fate = .notStarted reason →
      e = .loop (.notStarted reason) ∧ d'.state = .initialized) ∧
    (d.prepared.isSome → fate = .crashed →
      e = .loop .crashed ∧ d'.state = if d'.flags.stop then .stopping else .running) := by
  have hfails := run_eq_error_iff.mp hrun
  refine ⟨?_, fun _ _ => run_of_none hfails.prepared_eq_none, ?_, ?_, ?_⟩
  · cases hprepared : d.prepared with
    | none =>
      rw [(h.refused hprepared hrun).consistent_iff]
      simp
    | some prepared =>
      rw [(h.failed (by simp [hprepared]) hrun).consistent_iff]
      simp
  · intro hprepared
    rw [run_of_none hprepared] at hrun
    obtain ⟨⟩ := hrun
    exact ⟨rfl, rfl⟩
  · rintro reason hprepared rfl
    have hphase := (h.marked.not_lost hprepared).2
    cases hfails with
    | unprepared h => simp [h] at hprepared
    | notStarted => exact ⟨rfl, state_eq_initialized.mpr hphase⟩
  · rintro hprepared rfl
    cases hfails with
    | unprepared h => simp [h] at hprepared
    | crashed => exact ⟨rfl, by simp [state, Phase.state]⟩

/-! ## A queue that cannot be made -/

/-- A server can be initialized here, but its event loop cannot make its queue. -/
def crowded : FileSystem :=
  let settings := "[fifo]\nname = /f\n[fs]\nbuild_dir = /\n[repositories]\nconfig = /r\n" ++
    "[workers]\nqueue_depth = 2305843009213693952\n"
  (FileSystem.empty.set ["s"] (.file (Text.utf8Encode settings) 0o644)).set ["r"] (.file [] 0o644)

theorem prepared_crowded : ∃ d prepared, (Daemon.new.init "/s" crowded).daemon = d ∧
    Past false d ∧ d.prepared = some prepared ∧
    Dispatcher.start? prepared.config.maxJobs prepared.config.queueDepth = none := by
  have hlimits : (Daemon.new.init "/s" crowded).daemon.prepared.map
      (fun p => (p.config.maxJobs, p.config.queueDepth)) = some (4, 2305843009213693952) := by
    decide +kernel
  obtain ⟨prepared, hprepared, hlimits⟩ := Option.map_eq_some_iff.mp hlimits
  rw [Prod.mk.injEq] at hlimits
  refine ⟨_, prepared, rfl, Past.new.init "/s" crowded, hprepared, ?_⟩
  rw [hlimits.1, hlimits.2]
  rfl

/-- The run that fails for want of a queue leaves a server that is stopping for good. -/
theorem consistent_of_failed_run_iff_crowded :
    ∃ d d', (Daemon.new.init "/s" crowded).daemon = d ∧ Past false d ∧
      d.run .crashed Flags.requestStop = (.error (.loop .crashed), d') ∧
      ¬ d'.Consistent ∧ d'.state = if d'.flags.stop then .stopping else .running := by
  obtain ⟨d, prepared, hd, hpast, hprepared, -⟩ := prepared_crowded
  have hrun : d.run .crashed Flags.requestStop = (.error (.loop .crashed), _) :=
    run_eq_error_iff.mpr (.crashed hprepared)
  obtain ⟨hconsistent, -, -, -, hcrashed⟩ := consistent_of_failed_run_iff hpast hrun
  have hsome : d.prepared.isSome := by simp [hprepared]
  have hlost : ¬ d.prepared = none := by simp [hprepared]
  exact ⟨d, _, hd, hpast, hrun, fun h => hlost (hconsistent.mp h).2, (hcrashed hsome rfl).2⟩

/-- After initialization, a run fails because its queue cannot be made, or because its event
    loop cannot be started. The first leaves a server that says it is stopping, the second
    one that says it is initialized, though it has nothing to run. -/
theorem failed_run_not_consistent :
    ∃ d prepared, (Daemon.new.init "/s" crowded).daemon = d ∧ d.prepared = some prepared ∧
      Dispatcher.start? prepared.config.maxJobs prepared.config.queueDepth = none ∧
      (∃ d', d.run .crashed Flags.requestStop = (.error (.loop .crashed), d') ∧
        d'.state = .stopping ∧ ¬ d'.Consistent) ∧
      ∃ d', d.run (.notStarted "no thread") id = (.error (.loop (.notStarted "no thread")), d') ∧
        d'.state = .initialized ∧ d'.prepared = none ∧ ¬ d'.Consistent := by
  obtain ⟨d, prepared, hd, hpast, hprepared, hqueue⟩ := prepared_crowded
  refine ⟨d, prepared, hd, hprepared, hqueue, ?_, ?_⟩
  · have hstate : state ⟨.running, Flags.requestStop d.flags, none⟩ = .stopping :=
      state_eq_stopping.mpr ⟨rfl, rfl⟩
    exact ⟨_, run_eq_error_iff.mpr (.crashed hprepared), hstate, fun h => h.not_stopping hstate⟩
  · have hphase : d.phase = .initialized := (hpast.marked.not_lost (by simp [hprepared])).2
    have hstate : state { d with prepared := none } = .initialized :=
      state_eq_initialized.mpr hphase
    refine ⟨_, run_eq_error_iff.mpr (.notStarted hprepared), hstate, rfl, fun h => ?_⟩
    simpa using h.prepared hstate

end BuildServer.Daemon
