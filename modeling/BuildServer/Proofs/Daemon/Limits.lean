-- SUMMARY: The limits that a configuration may set, and which of them a dispatcher can be started with.
import BuildServer.Proofs.Daemon.Configuration
import BuildServer.Proofs.Dispatch.Ledger
import BuildServer.Proofs.Settings.Writing

/-!
# Limits

A configuration may set the limits to any numbers of 64 bits but zero, and the
dispatcher is started with just these numbers. There cannot be so many places and
slots, however. With too many places there is no dispatcher, and with too many slots
there is one whose loop is gone and never takes a job.
-/

namespace BuildServer

/-! ## Accepted limits -/

namespace DaemonConfig

/-- Settings with these limits, and with nothing else that need not be there. -/
def withLimits (maxJobs queueDepth : Nat) : Settings :=
  .ofPairs [(fifoKey, "/run/control"), (buildRootKey, "/builds"), (maxJobsKey, maxJobs.repr),
    (queueDepthKey, queueDepth.repr)]

theorem ofSettings_withLimits {maxJobs queueDepth : Nat} (hjobs : 1 ≤ maxJobs)
    (hjobs' : maxJobs < Nat.pow 2 64) (hdepth : 1 ≤ queueDepth)
    (hdepth' : queueDepth < Nat.pow 2 64) :
    ofSettings (withLimits maxJobs queueDepth) =
      .ok ⟨"/run/control", "/builds", Registry.defaultFile, defaultBindingsFile, maxJobs,
        queueDepth⟩ := by
  have hget (key : String) : (withLimits maxJobs queueDepth).get? key =
      ([(queueDepthKey, queueDepth.repr), (maxJobsKey, maxJobs.repr), (buildRootKey, "/builds"),
        (fifoKey, "/run/control")].find? (·.1 == key)).map Prod.snd :=
    Settings.getElem?_mapOf _ key
  refine ofSettings_eq_ok.mpr ⟨hget _, hget _, ?_, ?_, ?_, ?_, hjobs, hdepth⟩
  · rw [hget]
    rfl
  · rw [hget]
    rfl
  · have hvalue : (withLimits maxJobs queueDepth).get? maxJobsKey = some maxJobs.repr := hget _
    rw [Settings.Counts, hvalue]
    exact ⟨Text.isNumeral_repr maxJobs, hjobs'⟩
  · have hvalue : (withLimits maxJobs queueDepth).get? queueDepthKey = some queueDepth.repr :=
      hget _
    rw [Settings.Counts, hvalue]
    exact ⟨Text.isNumeral_repr queueDepth, hdepth'⟩

/-- Every two numbers of 64 bits but zero are the limits of a configuration, and no
    others are. -/
theorem exists_ofSettings_iff {maxJobs queueDepth : Nat} :
    (∃ s config, ofSettings s = .ok config ∧ config.maxJobs = maxJobs ∧
      config.queueDepth = queueDepth) ↔
      (1 ≤ maxJobs ∧ maxJobs < Nat.pow 2 64) ∧ 1 ≤ queueDepth ∧ queueDepth < Nat.pow 2 64 := by
  constructor
  · rintro ⟨s, config, hok, rfl, rfl⟩
    have h := ofSettings_eq_ok.mp hok
    exact ⟨⟨h.job_possible, h.maxJobs.lt (by decide)⟩, h.place_possible,
      h.queueDepth.lt (by decide)⟩
  · rintro ⟨⟨hjobs, hjobs'⟩, hdepth, hdepth'⟩
    exact ⟨_, _, ofSettings_withLimits hjobs hjobs' hdepth hdepth', rfl, rfl⟩

end DaemonConfig

/-! ## Starting with limits -/

namespace Dispatcher

variable {maxJobs queueDepth : Nat}

/-- A dispatcher can be made, and its loop runs. -/
def Startable (maxJobs queueDepth : Nat) : Prop :=
  ∃ d, start? maxJobs queueDepth = some d ∧ d.alive = true

/-- Limits other than zero are used as they are. -/
theorem start?_of_pos (hjobs : 1 ≤ maxJobs) (hdepth : 1 ≤ queueDepth) :
    start? maxJobs queueDepth =
      if permitLimit < queueDepth then none
      else some ⟨maxJobs, queueDepth, [], maxJobs, false, [], 1, maxJobs ≤ permitLimit⟩ := by
  simp only [start?, Nat.max_eq_left hjobs, Nat.max_eq_left hdepth]

theorem start?_eq_none_iff (hjobs : 1 ≤ maxJobs) (hdepth : 1 ≤ queueDepth) :
    start? maxJobs queueDepth = none ↔ permitLimit < queueDepth := by
  rw [start?_of_pos hjobs hdepth]
  split <;> simp_all

theorem startable_iff (hjobs : 1 ≤ maxJobs) (hdepth : 1 ≤ queueDepth) :
    Startable maxJobs queueDepth ↔ maxJobs ≤ permitLimit ∧ queueDepth ≤ permitLimit := by
  rw [Startable, start?_of_pos hjobs hdepth]
  constructor
  · rintro ⟨d, hstart, halive⟩
    split at hstart
    · cases hstart
    · next hfits =>
      obtain rfl := Option.some.inj hstart
      exact ⟨of_decide_eq_true halive, Nat.le_of_not_lt hfits⟩
  · rintro ⟨hslots, hfits⟩
    exact ⟨_, if_neg (Nat.not_lt.mpr hfits), decide_eq_true hslots⟩

namespace Ledger

variable {l l' : Ledger}

/-- The loop is gone, and no job has ever come into its hands. -/
structure Deserted (l : Ledger) : Prop where
  gone : l.dispatcher.alive = false
  none_running : l.dispatcher.running = []
  none_taken : l.taken = []

/-- Without its loop, a dispatcher does nothing but answer offers. -/
theorem Deserted.step {o : Occurrence} (h : l.Deserted) (hstep : l.Step o l') : l'.Deserted := by
  obtain ⟨hgone, hrunning, htaken⟩ := h
  cases hstep with
  | submit job hmove =>
    cases move?_eq_some_iff.mp hmove with
    | accepted _ halive => simp [hgone] at halive
    | full _ halive => simp [hgone] at halive
    | closed => exact ⟨hgone, hrunning, htaken⟩
  | share hmove =>
    cases move?_eq_some_iff.mp hmove with
    | share => exact ⟨hgone, hrunning, htaken⟩
  | drop hmove =>
    cases move?_eq_some_iff.mp hmove with
    | drop => exact ⟨hgone, hrunning, htaken⟩
  | acquire hmove =>
    cases move?_eq_some_iff.mp hmove with
    | acquire halive => simp [hgone] at halive
  | receive hmove =>
    cases move?_eq_some_iff.mp hmove with
    | receive _ halive => simp [hgone] at halive
  | finish i result hmove =>
    cases move?_eq_some_iff.mp hmove with
    | finish hi => simp [hrunning] at hi
  | leave hmove =>
    cases move?_eq_some_iff.mp hmove with
    | leave halive => simp [hgone] at halive

/-- With more slots than there can be, no job is ever taken. -/
theorem Reachable.deserted (hjobs : permitLimit < maxJobs) (h : Reachable maxJobs queueDepth l) :
    l.Deserted := by
  induction h with
  | opened hstart =>
    simp only [start?] at hstart
    split at hstart
    · cases hstart
    · obtain rfl := Option.some.inj hstart
      exact ⟨decide_eq_false (by omega), rfl, rfl⟩
  | next _ hstep ih => exact ih.step hstep

end Ledger

end Dispatcher

namespace DaemonConfig

open Dispatcher (Startable start? permitLimit)

/-- Limits that have been accepted can be started exactly if queues and slots can be
    so large. A longer queue is not made at all, and with more slots no job is ever
    taken. -/
theorem accepted_startable_iff {s : Settings} {config : DaemonConfig}
    (h : ofSettings s = .ok config) :
    (Startable config.maxJobs config.queueDepth ↔
      config.maxJobs ≤ permitLimit ∧ config.queueDepth ≤ permitLimit) ∧
    (start? config.maxJobs config.queueDepth = none ↔ permitLimit < config.queueDepth) ∧
    (permitLimit < config.maxJobs →
      ∀ l, Dispatcher.Ledger.Reachable config.maxJobs config.queueDepth l → l.taken = []) := by
  have hgives := ofSettings_eq_ok.mp h
  have hjobs := hgives.job_possible
  have hdepth := hgives.place_possible
  exact ⟨Dispatcher.startable_iff hjobs hdepth, Dispatcher.start?_eq_none_iff hjobs hdepth,
    fun hmany _ hl => (hl.deserted hmany).none_taken⟩

/-- The greatest limits that can be started. -/
theorem accepted_startable_greatest :
    ∃ config, ofSettings (withLimits 2305843009213693951 2305843009213693951) = .ok config ∧
      config.queueDepth = 2305843009213693951 ∧
      Startable config.maxJobs config.queueDepth := by
  have hok : ofSettings (withLimits 2305843009213693951 2305843009213693951) = .ok _ :=
    ofSettings_withLimits (by decide) (by decide) (by decide) (by decide)
  exact ⟨_, hok, rfl, (accepted_startable_iff hok).1.mpr ⟨by decide, by decide⟩⟩

/-- With one place or one slot more, the limits are still accepted, but there is no
    dispatcher, or one whose loop is gone. -/
theorem accepted_not_startable :
    (∃ config, ofSettings (withLimits 4 2305843009213693952) = .ok config ∧
      start? config.maxJobs config.queueDepth = none) ∧
    ∃ config, ofSettings (withLimits 2305843009213693952 64) = .ok config ∧
      ∃ d, start? config.maxJobs config.queueDepth = some d ∧ d.alive = false :=
  ⟨⟨_, ofSettings_withLimits (by decide) (by decide) (by decide) (by decide), rfl⟩,
    _, ofSettings_withLimits (by decide) (by decide) (by decide) (by decide), _, rfl, rfl⟩

end DaemonConfig

end BuildServer
