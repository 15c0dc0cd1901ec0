-- SUMMARY: A workshop does nothing but what can happen at its dispatcher, with the results that its builds have.
import BuildServer.Proofs.Dispatch.Ledger

/-!
# Workshops and ledgers

A workshop decides when slots and jobs are taken and when builds end, and it runs
the builds. Each thing that it does is something that can happen at its
dispatcher, so there is always a ledger that tells its jobs and results, and what
is true of all ledgers is true of it.
-/

namespace BuildServer

namespace Dispatcher

theorem submit_running (d : Dispatcher) (job : Job) : (d.submit job).2.running = d.running := by
  unfold submit
  split
  · rfl
  · split <;> rfl

theorem move_eq_of_move? {d d' : Dispatcher} {m : Move} (h : d.move? m = some d') :
    d.move m = d' := by
  rw [move, h, Option.getD_some]

/-- A move that is not possible changes nothing. -/
theorem move_of_move?_ne {d : Dispatcher} {m : Move} (h : d.move? m ≠ some (d.move m)) :
    d.move m = d := by
  cases hmove : d.move? m with
  | none => rw [move, hmove, Option.getD_none]
  | some d' => exact absurd (hmove.trans (congrArg some (move_eq_of_move? hmove).symm)) h

end Dispatcher

namespace Workshop

open Control (SubmitError)
open Dispatcher (Ledger Move Occurrence)
open Dispatcher.Ledger (Later)

/-- A ledger that tells what has happened in a workshop. -/
structure Told (w : Workshop) (l : Ledger) : Prop where
  dispatcher : l.dispatcher = w.dispatcher
  taken : l.taken = w.begun.map BuildRun.job
  ended : l.ended = w.ended.map fun run => (run.job, run.result)
  running : w.dispatcher.running = w.underway.map BuildRun.job

variable {w w' : Workshop} {l : Ledger} (env : BuildEnvironment) (ready : BuildRun → Bool)

theorem told_ofDispatcher {d : Dispatcher} (hrunning : d.running = []) (site : Site)
    (supply : BuildId.Supply) : (ofDispatcher d site supply).Told (.opened d) :=
  ⟨rfl, rfl, rfl, hrunning⟩

/-! ## What a workshop does -/

theorem Told.submit (h : w.Told l) (hhandle : 0 < w.dispatcher.handles) (job : Job) :
    ∃ l', l.Step (.submit job) l' ∧ (w.submit job).2.Told l' ∧
      l'.offers = l.offers ++ [(job, (w.submit job).1)] := by
  obtain ⟨hdispatcher, htaken, hended, hrunning⟩ := h
  have hmove : l.dispatcher.move? (.submit job) = some (w.dispatcher.submit job).2 := by
    rw [hdispatcher, Dispatcher.move?, if_pos hhandle]
  refine ⟨_, .submit job hmove, ⟨rfl, htaken, hended, ?_⟩, by rw [hdispatcher]; rfl⟩
  exact (Dispatcher.submit_running w.dispatcher job).trans hrunning

/-- A move of which the ledger keeps nothing but the dispatcher is made if it can
    be made. -/
theorem Told.move (h : w.Told l) {m : Move} {o : Occurrence}
    (hstep : ∀ {d}, l.dispatcher.move? m = some d → l.Step o { l with dispatcher := d })
    (hkeep : ∀ {d}, w.dispatcher.Moves m d → d.running = w.dispatcher.running) :
    ∃ l', Later l l' ∧ { w with dispatcher := w.dispatcher.move m }.Told l' := by
  obtain ⟨hdispatcher, htaken, hended, hrunning⟩ := h
  by_cases hmove : w.dispatcher.move? m = some (w.dispatcher.move m)
  · have hmoves := Dispatcher.move?_eq_some_iff.mp hmove
    rw [← hdispatcher] at hmove
    refine ⟨_, .next (hstep hmove) rfl (.same _), ⟨?_, htaken, hended, ?_⟩⟩
    · exact congrArg (Dispatcher.move · m) hdispatcher
    · exact (hkeep hmoves).trans hrunning
  · refine ⟨l, .same l, ?_⟩
    rw [Dispatcher.move_of_move?_ne hmove]
    exact ⟨hdispatcher, htaken, hended, hrunning⟩

theorem Told.acquire (h : w.Told l) :
    ∃ l', Later l l' ∧ { w with dispatcher := w.dispatcher.move .acquire }.Told l' :=
  h.move .acquire (by rintro d ⟨⟩; rfl)

theorem Told.leave (h : w.Told l) :
    ∃ l', Later l l' ∧ { w with dispatcher := w.dispatcher.move .leave }.Told l' :=
  h.move .leave (by rintro d ⟨⟩; rfl)

theorem Told.takeJob (h : w.Told l) (htake : w.takeJob env = some w') :
    ∃ l', Later l l' ∧ w'.Told l' := by
  obtain ⟨l₁, hlater, hdispatcher, htaken, hended, hrunning⟩ := h.acquire
  dsimp only at hdispatcher htaken hended hrunning
  simp only [Workshop.takeJob, Option.bind_eq_bind, Option.bind_eq_some_iff, Option.pure_def,
    Option.some.injEq] at htake
  obtain ⟨job, hjob, d, hmove, rfl⟩ := htake
  have hstep := hmove
  rw [← hdispatcher] at hstep
  refine ⟨_, hlater.trans (.next (.receive hstep) rfl (.same _)), ⟨rfl, ?_, hended, ?_⟩⟩
  · rw [hdispatcher, hjob, htaken]
    simp
  · cases Dispatcher.move?_eq_some_iff.mp hmove with
    | receive hqueue =>
      rw [hqueue, List.head?_cons, Option.some.injEq] at hjob
      simp only [hrunning, hjob, List.map_append, List.map_cons, List.map_nil]

theorem Told.finishFrom {position : Nat} {runs : List BuildRun} (h : w.Told l)
    (hruns : w.underway.drop position = runs) :
    ∃ l', Later l l' ∧ (w.finishFrom ready position runs).Told l' := by
  induction runs generalizing w l position with
  | nil => exact ⟨l, .same l, h⟩
  | cons run runs ih =>
    obtain ⟨hdispatcher, htaken, hended, hrunning⟩ := h
    have hposition : position < w.underway.length := by
      by_contra hlt
      rw [List.drop_of_length_le (by omega)] at hruns
      cases hruns
    rw [List.drop_eq_getElem_cons hposition, List.cons.injEq] at hruns
    obtain ⟨hrun, hruns⟩ := hruns
    rw [Workshop.finishFrom]
    split
    · have hlt : position < w.dispatcher.running.length := by
        rw [hrunning, List.length_map]
        exact hposition
      have hmove := Dispatcher.move?_eq_some_iff.mpr (.finish hlt)
      have htold : Told
          { w with
            dispatcher := w.dispatcher.move (.finish position)
            underway := w.underway.eraseIdx position
            ended := w.ended ++ [run] }
          { l with
            dispatcher := w.dispatcher.move (.finish position)
            ended := l.ended ++ [(run.job, run.result)] } := by
        refine ⟨rfl, htaken, by simp [hended], ?_⟩
        rw [Dispatcher.move_eq_of_move? hmove]
        exact (congrArg (List.eraseIdx · position) hrunning).trans (List.eraseIdx_map ..)
      have hstep : l.Step (.finish position run.result) { l with
          dispatcher := w.dispatcher.move (.finish position)
          ended := l.ended ++ [(run.job, run.result)] } := by
        have hmove' : l.dispatcher.move? (.finish position) =
            some (w.dispatcher.move (.finish position)) := by
          rw [hdispatcher, Dispatcher.move_eq_of_move? hmove, hmove]
        have hstep := Ledger.Step.finish position run.result hmove'
        rwa [hdispatcher, hrunning, List.getElem?_map, List.getElem?_eq_getElem hposition, hrun]
          at hstep
      have hdrop : (w.underway.eraseIdx position).drop position = runs := by
        have hlength := List.length_take_of_le (Nat.le_of_lt hposition)
        rw [List.eraseIdx_eq_take_drop_succ, List.drop_left' hlength, hruns]
      obtain ⟨l', hlater, htold'⟩ := ih htold hdrop
      exact ⟨l', .next hstep rfl hlater, htold'⟩
    · exact ih ⟨hdispatcher, htaken, hended, hrunning⟩ hruns

theorem Told.settleFor (n : Nat) (h : w.Told l) :
    ∃ l', Later l l' ∧ (w.settleFor env ready n).Told l' := by
  induction n generalizing w l with
  | zero => exact h.finishFrom ready rfl
  | succ n ih =>
    obtain ⟨l₁, hlater₁, h₁⟩ := h.finishFrom ready rfl
    simp only [Workshop.settleFor]
    split
    · next htake =>
      obtain ⟨l₂, hlater₂, h₂⟩ := h₁.takeJob env htake
      obtain ⟨l₃, hlater₃, h₃⟩ := ih h₂
      exact ⟨l₃, hlater₁.trans (hlater₂.trans hlater₃), h₃⟩
    · exact ⟨l₁, hlater₁, h₁⟩

theorem Told.settle (h : w.Told l) : ∃ l', Later l l' ∧ (w.settle env ready).Told l' := by
  obtain ⟨l₁, hlater₁, h₁⟩ := h.settleFor env ready w.dispatcher.queue.length
  obtain ⟨l₂, hlater₂, h₂⟩ := h₁.acquire
  obtain ⟨l₃, hlater₃, h₃⟩ := h₂.leave
  exact ⟨l₃, hlater₁.trans (hlater₂.trans hlater₃), h₃⟩

/-- Submitting a job to a workshop, with all that happens there before the next
    one, is an offer and what can follow it. -/
theorem Told.sink {maxJobs queueDepth : Nat} (h : w.Told l)
    (hl : Ledger.Reachable maxJobs queueDepth l) (hhandle : 0 < w.dispatcher.handles) (job : Job) :
    ∃ l', Ledger.Reachable maxJobs queueDepth l' ∧
      (((sink env ready).submit job w).2).Told l' ∧
      l'.offers = l.offers ++ [(job, ((sink env ready).submit job w).1)] := by
  obtain ⟨l₁, hstep, h₁, hoffers⟩ := h.submit hhandle job
  obtain ⟨l₂, hlater, h₂⟩ := h₁.settle env ready
  exact ⟨l₂, hlater.reachable (hl.next hstep), h₂, hlater.offers.trans hoffers⟩

end Workshop

end BuildServer
