-- SUMMARY: Servers are initialized once and run once, and no request to restart is lost.
import BuildServer.Proofs.Daemon.Life

/-!
# Lifecycle and restarts

A server goes through its phases in order, each entered at most once, and what it
cannot do in a phase is refused without any change. The order of the two stores
of a request to restart makes sure that a run which has been stopped by it knows:
whoever stores the stop flag on behalf of a restart has stored the restart flag
before.
-/

namespace BuildServer

/-- The phase after this one. -/
def Phase.next? : Phase → Option Phase
  | .uninitialized => some .initialized
  | .initialized => some .running
  | .running => some .stopped
  | .stopped => none

namespace Daemon

variable {d d' : Daemon} {fate : LoopFate} {meanwhile : Control.Flags → Control.Flags}

theorem state_eq_stopping : d.state = .stopping ↔ d.phase = .running ∧ d.flags.stop := by
  unfold state
  split
  · next h => exact iff_of_true rfl h
  · next h =>
    refine iff_of_false ?_ h
    cases d.phase <;> nofun

theorem disposition_eq_restart : d.disposition = .restart ↔ d.flags.restart := by
  rw [disposition]
  split <;> simp_all

theorem run_of_none (h : d.prepared = none) :
    d.run fate meanwhile = (.error (.invalidState .run d.state), d) := by
  rw [run, take_of_none h]

theorem run_eq_ok {x : Disposition} (h : d.run fate meanwhile = (.ok x, d')) :
    d'.phase = .stopped ∧ d'.flags = meanwhile d.flags ∧ (x = .restart ↔ d'.flags.restart) := by
  rw [run] at h
  split at h
  · cases h
  · next taken htake =>
    obtain ⟨-, rfl⟩ := take_eq_ok htake
    cases fate with
    | notStarted reason => cases h
    | crashed => cases h
    | ended =>
      obtain ⟨⟩ := h
      exact ⟨rfl, rfl, disposition_eq_restart⟩

end Daemon

namespace Life

open Control (Flags Store)

variable {events : List Event} {l l' : Life} {e : Event}

/-! ## Lifecycle -/

theorem phase_of_entered {p p' : Phase} {o : Option Phase}
    (h : entered p' = entered p ++ o.toList) : p' = p ∨ p.next? = some p' := by
  cases o with
  | none => cases p <;> cases p' <;> simp [entered] at h ⊢
  | some q => cases p <;> cases p' <;> simp [entered, Phase.next?] at h ⊢

theorem count_entered_le_one (p q : Phase) : (entered p).count q ≤ 1 := by
  cases p <;> cases q <;> decide

theorem Sound.moves (h : Sound events l) (hstep : l.Step e l') :
    l'.daemon.phase = l.daemon.phase ∨ l.daemon.phase.next? = some l'.daemon.phase := by
  have hentered := (h.step hstep).entered
  rw [List.filterMap_append, h.entered] at hentered
  refine phase_of_entered (o := e.enters?) ?_
  rw [← hentered]
  cases hentered : e.enters? <;> simp [hentered]

/-- What is true of a server at every moment of its life. -/
structure Lawful (events : List Event) (l : Life) : Prop where
  /-- The phases come in order. -/
  moves : ∀ {e l'}, l.Step e l' →
    l'.daemon.phase = l.daemon.phase ∨ l.daemon.phase.next? = some l'.daemon.phase
  /-- An initialization that succeeds, a run that is accepted and a run that returns are
      what takes the server to its next phase. -/
  entered : events.filterMap Event.enters? = entered l.daemon.phase
  once : ∀ phase, (events.filterMap Event.enters?).count phase ≤ 1
  init_refused : l.daemon.phase ≠ .uninitialized → ∀ path fs,
    l.daemon.init path fs = ⟨.error (.invalidState .init l.daemon.phase.state), l.daemon, fs, []⟩
  run_refused : ¬ Pending events → ∀ fate meanwhile,
    l.daemon.run fate meanwhile = (.error (.invalidState .run l.daemon.state), l.daemon)
  run_accepted : Pending events → ∃ prepared d, l.daemon.take = (.ok prepared, d)
  held : l.daemon.prepared.isSome ↔ l.daemon.phase = .initialized
  kept : ∀ {later l'}, l.Leads later l' → ∀ t, l.flag t → l'.flag t
  stopping : l.daemon.state = .stopping ↔ l.daemon.phase = .running ∧ l.daemon.flags.stop
  /-- A run that returns leaves the server stopped, and says what the restart flag was
      when the run loaded it. -/
  returned : ∀ {x l'}, l.Step (.returned x) l' → l'.daemon.phase = .stopped ∧
    ∃ before after m, events = before ++ .loadedRestart x :: after ∧ start.Leads before m ∧
      (x = .restart ↔ m.daemon.flags.restart)
  ran : ∀ {fate meanwhile x d}, l.daemon.run fate meanwhile = (.ok x, d) →
    d.phase = .stopped ∧ d.flags = meanwhile l.daemon.flags ∧ (x = .restart ↔ d.flags.restart)

/-- The life before the restart flag was loaded. -/
theorem leads_loadedRestart {before after : List Event} {x : Disposition}
    (h : start.Leads (before ++ .loadedRestart x :: after) l) :
    ∃ m, start.Leads before m ∧ m.supervisor = .alerted ∧ x = m.daemon.disposition := by
  obtain ⟨m, m', hm, hstep, -⟩ := h.split
  cases hstep with
  | loadRestart halerted => exact ⟨m, hm, halerted, rfl⟩

/-- Whatever its owner and the holders of its handles do, a server is lawful. -/
theorem lawful_of_leads (h : start.Leads events l) : Lawful events l := by
  have hsound := sound_leads h
  have hpending : Pending events ↔ l.daemon.prepared.isSome := by
    rw [hsound.pending, hsound.prepared]
  refine
    { moves := hsound.moves
      entered := hsound.entered
      once := fun phase => hsound.entered ▸ count_entered_le_one _ phase
      init_refused := Daemon.init_of_ne_uninitialized
      run_refused := fun hunprepared fate meanwhile => ?_
      run_accepted := fun hprepared => ?_
      held := hsound.prepared
      kept := fun hlater t => hlater.flag_kept
      stopping := Daemon.state_eq_stopping
      returned := fun {x l'} hstep => ?_
      ran := Daemon.run_eq_ok }
  · rw [hpending, Option.not_isSome_iff_eq_none] at hunprepared
    exact Daemon.run_of_none hunprepared
  · obtain ⟨prepared, hsome⟩ := Option.isSome_iff_exists.mp (hpending.mp hprepared)
    exact ⟨prepared, _, Daemon.take_of_some hsome⟩
  · cases hstep with
    | ret hclosing =>
      obtain ⟨before, after, rfl⟩ := List.append_of_mem (hsound.closing x hclosing)
      obtain ⟨m, hm, -, hx⟩ := leads_loadedRestart h
      exact ⟨rfl, before, after, m, rfl, hm, hx ▸ Daemon.disposition_eq_restart⟩

theorem lawful_of_leads_overtaken : ∃ l, start.Leads overtaken l ∧ Lawful overtaken l := by
  obtain ⟨l, hl⟩ := leads_overtaken
  exact ⟨l, hl, lawful_of_leads hl⟩

/-! ## Restarts -/

theorem flag_stop_of_loadedStop {seen : Bool} (h : l.Step (.loadedStop seen) l') :
    l.flag .stop = seen := by
  cases h
  rfl

/-- What a run has loaded from the restart flag, it has loaded after it has seen the
    stop flag. If a request to restart had made its first store before that, or if
    nobody had asked for a mere stop, the run says restart; if nobody had asked for a
    restart before it was loaded, the run says success. Apart from requests to restart
    that are between their two stores, there is no restart flag without a stop flag. -/
theorem restart_of_leads (h : start.Leads events l) :
    (∀ x, l.supervisor = .closing x ∨ .loadedRestart x ∈ events → ∃ before mid after,
      events = before ++ .loadedStop true :: mid ++ .loadedRestart x :: after) ∧
    (∀ before mid after x,
      events = before ++ .loadedStop true :: mid ++ .loadedRestart x :: after →
        (.stored .restart 0 ∈ before → x = .restart) ∧
        (.called .stop ∉ before → x = .restart) ∧
        (.called .restart ∉ before ++ mid → x = .success)) ∧
    ((∀ c ∈ l.calls, c.request = .restart → c.made ≠ 1) →
      l.daemon.flags.restart → l.daemon.flags.stop) := by
  refine ⟨?_, ?_, ?_⟩
  · intro x hx
    obtain ⟨front, after, rfl⟩ := List.append_of_mem (hx.elim ((sound_leads h).closing x) id)
    obtain ⟨m, hm, halerted, -⟩ := leads_loadedRestart h
    obtain ⟨before, mid, rfl⟩ := List.append_of_mem ((sound_leads hm).alerted halerted)
    exact ⟨before, mid, after, rfl⟩
  · rintro before mid after x rfl
    obtain ⟨m, hm, -, rfl⟩ := leads_loadedRestart h
    obtain ⟨n, n', hn, hstep, hlater⟩ := hm.split
    have haccounts := accounts_leads hn
    have hkept : n.flag .restart → m.daemon.disposition = .restart := fun hrestart =>
      Daemon.disposition_eq_restart.mpr (hlater.flag_kept (hstep.flag_kept hrestart))
    refine ⟨?_, ?_, ?_⟩
    · intro hstored
      obtain ⟨c, hc, hrequest, hmade⟩ := (haccounts.stored .restart 0).mp hstored
      exact hkept ((haccounts.flag .restart).mpr ⟨c, hc, restart_mem_stored.mpr ⟨hrequest, hmade⟩⟩)
    · intro hcalled
      obtain ⟨c, hc, hstored⟩ := (haccounts.flag .stop).mp (flag_stop_of_loadedStop hstep)
      -- Nobody has begun a call to stop, so the call that has stored the flag is a restart.
      obtain ⟨hrequest, -⟩ | ⟨hrequest, hmade⟩ := stop_mem_stored.mp hstored
      · exact absurd ((haccounts.called .stop).mpr ⟨c, hc, hrequest⟩) hcalled
      · refine hkept ((haccounts.flag .restart).mpr ⟨c, hc, restart_mem_stored.mpr ⟨hrequest, ?_⟩⟩)
        exact Nat.le_of_succ_le hmade
    · intro hcalled
      have hunset : ¬ m.flag .restart := by
        intro hrestart
        obtain ⟨c, hc, hstored⟩ := ((accounts_leads hm).flag .restart).mp hrestart
        have hbegun := ((accounts_leads hm).called .restart).mpr
          ⟨c, hc, (restart_mem_stored.mp hstored).1⟩
        exact hcalled (by simpa using hbegun)
      exact if_neg hunset
  · intro hbetween hrestart
    have haccounts := accounts_leads h
    obtain ⟨c, hc, hstored⟩ := (haccounts.flag .restart).mp hrestart
    obtain ⟨hrequest, hmade⟩ := restart_mem_stored.mp hstored
    have hmade' : 2 ≤ c.made := Nat.lt_of_le_of_ne hmade (Ne.symm (hbetween c hc hrequest))
    exact (haccounts.flag .stop).mpr ⟨c, hc, stop_mem_stored.mpr (.inr ⟨hrequest, hmade'⟩)⟩

theorem restart_of_leads_overtaken : ∃ l, start.Leads overtaken l ∧
    ∀ before mid after x,
      overtaken = before ++ .loadedStop true :: mid ++ .loadedRestart x :: after →
        .stored .restart 0 ∈ before → x = .restart := by
  obtain ⟨l, hl⟩ := leads_overtaken
  obtain ⟨-, hloaded, -⟩ := restart_of_leads hl
  exact ⟨l, hl, fun before mid after x h => (hloaded before mid after x h).1⟩

end Life

end BuildServer
