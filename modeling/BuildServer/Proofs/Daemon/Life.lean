-- SUMMARY: Everything that can happen in the life of a server, one step after the other.
import BuildServer.Daemon.Basic

/-!
# Lives of a server

A server is initialized and run by its owner, one call at a time, while anyone
with a handle asks it to stop or to restart. A request is a call whose stores
are made one by one, and between any two of them everything else can happen: the
stores of other calls, and the loads with which a run waits for its end. A life
keeps the server, what the run is at, and how far the calls are.
-/

namespace BuildServer

open Control (Flags Store)

/-- What anyone may ask for. -/
inductive Request where
  | stop
  | restart
  deriving DecidableEq

def Request.stores : Request → List Store
  | .stop => Flags.stopStores
  | .restart => Flags.restartStores

/-- A call for a request. -/
structure RequestCall where
  request : Request
  /-- How many of its stores it has made. -/
  made : Nat

namespace RequestCall

def begun (r : Request) : RequestCall := ⟨r, 0⟩

def advanced (c : RequestCall) : RequestCall := { c with made := c.made + 1 }

/-- The stores that a call has made. -/
def stored (c : RequestCall) : List Store := c.request.stores.take c.made

end RequestCall

/-- What the run of a server is at. -/
inductive Supervisor where
  /-- There is no run. -/
  | away
  /-- The stop flag is loaded until it is set. -/
  | polling
  /-- The stop flag has been seen. -/
  | alerted
  /-- The restart flag has been loaded too. -/
  | closing (disposition : Disposition)
  deriving DecidableEq

structure Life where
  daemon : Daemon
  supervisor : Supervisor
  calls : List RequestCall

namespace Life

def start : Life := ⟨.new, .away, []⟩

inductive Event where
  | init (path : String) (fs : FileSystem) (result : Except DaemonError Unit)
  | refused (cause : DaemonError)
  | accepted
  | called (r : Request)
  /-- A call makes the store with this number. -/
  | stored (r : Request) (n : Nat)
  | loadedStop (seen : Bool)
  | loadedRestart (disposition : Disposition)
  | returned (disposition : Disposition)

/-- One step. The owner begins nothing during a run, and the event loop of a run
    that is accepted starts and does not crash. -/
inductive Step (l : Life) : Event → Life → Prop where
  | init (haway : l.supervisor = .away) (path : String) (fs : FileSystem) :
      Step l (.init path fs (l.daemon.init path fs).result)
        { l with daemon := (l.daemon.init path fs).daemon }
  | refuse (haway : l.supervisor = .away) {cause : DaemonError} {d : Daemon}
      (h : l.daemon.take = (.error cause, d)) : Step l (.refused cause) { l with daemon := d }
  | accept (haway : l.supervisor = .away) {prepared : Prepared} {d : Daemon}
      (h : l.daemon.take = (.ok prepared, d)) :
      Step l .accepted { l with daemon := d.launch, supervisor := .polling }
  | call (r : Request) : Step l (.called r) { l with calls := l.calls ++ [.begun r] }
  | store {i : Nat} {c : RequestCall} {s : Store} (hi : l.calls[i]? = some c)
      (hs : c.request.stores[c.made]? = some s) :
      Step l (.stored c.request c.made)
        { l with
          daemon.flags := l.daemon.flags.store s
          calls := l.calls.set i c.advanced }
  | loadStop (hpolling : l.supervisor = .polling) :
      Step l (.loadedStop l.daemon.flags.stop)
        { l with supervisor := if l.daemon.flags.stop then .alerted else .polling }
  | loadRestart (halerted : l.supervisor = .alerted) :
      Step l (.loadedRestart l.daemon.disposition)
        { l with supervisor := .closing l.daemon.disposition }
  | ret {x : Disposition} (hclosing : l.supervisor = .closing x) :
      Step l (.returned x) { l with daemon := l.daemon.conclude.2, supervisor := .away }

/-- A life leads over the events, in order, to another one. -/
inductive Leads (l : Life) : List Event → Life → Prop where
  | here : Leads l [] l
  | next {events : List Event} {m l' : Life} {e : Event} (h : Leads l events m)
      (hstep : m.Step e l') : Leads l (events ++ [e]) l'

namespace Leads

variable {l m l' : Life} {events more : List Event}

theorem single {e : Event} (h : l.Step e l') : l.Leads [e] l' :=
  .next .here h

theorem trans (h : l.Leads events m) (h' : m.Leads more l') : l.Leads (events ++ more) l' := by
  induction h' with
  | here => rwa [List.append_nil]
  | next _ hstep ih =>
    rw [← List.append_assoc]
    exact ih.next hstep

/-- Every event is a step from the life that the events before it lead to. -/
theorem split {before after : List Event} {e : Event} (h : l.Leads (before ++ e :: after) l') :
    ∃ m m', l.Leads before m ∧ m.Step e m' ∧ m'.Leads after l' := by
  generalize hevents : before ++ e :: after = events at h
  induction h generalizing after with
  | here => simp at hevents
  | @next events m l' e' h hstep ih =>
    obtain rfl | ⟨after, last, rfl⟩ := List.eq_nil_or_concat after
    · obtain ⟨rfl, hlast⟩ := List.append_inj' hevents rfl
      obtain rfl := List.singleton_inj.mp hlast
      exact ⟨m, l', h, hstep, .here⟩
    · rw [List.concat_eq_append, ← List.cons_append, ← List.append_assoc] at hevents
      obtain ⟨hbefore, hlast⟩ := List.append_inj' hevents rfl
      obtain rfl := List.singleton_inj.mp hlast
      obtain ⟨n, n', hn, hstep', hn'⟩ := ih hbefore
      rw [List.concat_eq_append]
      exact ⟨n, n', hn, hstep', hn'.next hstep⟩

end Leads

/-! ## Flags -/

/-- The flag that a store sets. -/
def flag (l : Life) : Store → Bool
  | .stop => l.daemon.flags.stop
  | .restart => l.daemon.flags.restart

end Life

namespace Daemon

theorem init_of_ne_uninitialized {d : Daemon} (h : d.phase ≠ .uninitialized) (path : String)
    (fs : FileSystem) :
    d.init path fs = ⟨.error (.invalidState .init d.phase.state), d, fs, []⟩ := by
  rw [init, if_neg h]

/-- Initialization succeeds in the first phase only, and nothing is different for the
    server if it does not succeed. -/
theorem init_cases (d : Daemon) (path : String) (fs : FileSystem) :
    (∃ prepared, d.phase = .uninitialized ∧ (d.init path fs).result = .ok () ∧
      (d.init path fs).daemon = { d with phase := .initialized, prepared := some prepared }) ∨
    ∃ e, (d.init path fs).result = .error e ∧ (d.init path fs).daemon = d := by
  by_cases hphase : d.phase = .uninitialized
  · rw [init, if_pos hphase]
    dsimp only
    cases (Startup.of path fs).result with
    | error e => exact .inr ⟨e, rfl, rfl⟩
    | ok prepared => exact .inl ⟨prepared, hphase, rfl, rfl⟩
  · rw [init_of_ne_uninitialized hphase]
    exact .inr ⟨_, rfl, rfl⟩

theorem take_of_none {d : Daemon} (h : d.prepared = none) :
    d.take = (.error (.invalidState .run d.state), d) := by
  rw [take, h]

theorem take_of_some {d : Daemon} {prepared : Prepared} (h : d.prepared = some prepared) :
    d.take = (.ok prepared, { d with prepared := none }) := by
  rw [take, h]

theorem take_eq_error {d d' : Daemon} {cause : DaemonError} (h : d.take = (.error cause, d')) :
    d.prepared = none ∧ cause = .invalidState .run d.state ∧ d' = d := by
  unfold take at h
  split at h
  · next hprepared =>
    obtain ⟨⟩ := h
    exact ⟨hprepared, rfl, rfl⟩
  · cases h

theorem take_eq_ok {d d' : Daemon} {prepared : Prepared} (h : d.take = (.ok prepared, d')) :
    d.prepared = some prepared ∧ d' = { d with prepared := none } := by
  unfold take at h
  split at h
  · cases h
  · next hprepared =>
    obtain ⟨⟩ := h
    exact ⟨hprepared, rfl⟩

end Daemon

namespace Life

variable {l l' : Life} {e : Event}

theorem flag_store (l : Life) (s t : Store) (calls : List RequestCall) :
    flag { l with daemon.flags := l.daemon.flags.store s, calls } t = (l.flag t || t == s) := by
  cases s <;> cases t <;> simp [flag, Flags.store]

/-- How one step changes flags and calls. Only requests change them. -/
theorem Step.request_cases (h : l.Step e l') :
    ((∀ t, l'.flag t = l.flag t) ∧ l'.calls = l.calls ∧ (∀ r, e ≠ .called r) ∧
      ∀ r n, e ≠ .stored r n) ∨
    (∃ r, e = .called r ∧ (∀ t, l'.flag t = l.flag t) ∧ l'.calls = l.calls ++ [.begun r]) ∨
    ∃ (i : Nat) (c : RequestCall) (s : Store), e = .stored c.request c.made ∧
      l.calls[i]? = some c ∧ c.request.stores[c.made]? = some s ∧
      (∀ t, l'.flag t = (l.flag t || t == s)) ∧ l'.calls = l.calls.set i c.advanced := by
  have idle {d : Daemon} {sv : Supervisor} (hflags : d.flags = l.daemon.flags) (t : Store) :
      flag { l with daemon := d, supervisor := sv } t = l.flag t := by
    cases t <;> simp [flag, hflags]
  cases h with
  | init haway path fs =>
    refine .inl ⟨idle ?_, rfl, nofun, nofun⟩
    obtain ⟨prepared, -, -, hdaemon⟩ | ⟨cause, -, hdaemon⟩ := l.daemon.init_cases path fs <;>
      rw [hdaemon]
  | refuse haway htake =>
    obtain ⟨-, -, rfl⟩ := Daemon.take_eq_error htake
    exact .inl ⟨idle rfl, rfl, nofun, nofun⟩
  | accept haway htake =>
    obtain ⟨-, rfl⟩ := Daemon.take_eq_ok htake
    exact .inl ⟨idle rfl, rfl, nofun, nofun⟩
  | call r => exact .inr (.inl ⟨r, rfl, fun _ => rfl, rfl⟩)
  | store hi hs => exact .inr (.inr ⟨_, _, _, rfl, hi, hs, fun t => flag_store l _ t _, rfl⟩)
  | loadStop hpolling => exact .inl ⟨fun _ => rfl, rfl, nofun, nofun⟩
  | loadRestart halerted => exact .inl ⟨fun _ => rfl, rfl, nofun, nofun⟩
  | ret hclosing => exact .inl ⟨fun _ => rfl, rfl, nofun, nofun⟩

theorem Step.flag_kept (h : l.Step e l') {t : Store} (ht : l.flag t) : l'.flag t := by
  obtain ⟨hflag, -⟩ | ⟨r, -, hflag, -⟩ | ⟨i, c, s, -, -, -, hflag, -⟩ := h.request_cases
  · rwa [hflag]
  · rwa [hflag]
  · rw [hflag, ht, Bool.true_or]

/-- A flag that is set stays set. -/
theorem Leads.flag_kept {events : List Event} (h : l.Leads events l') {t : Store} (ht : l.flag t) :
    l'.flag t := by
  induction h with
  | here => exact ht
  | next _ hstep ih => exact hstep.flag_kept ih

/-! ## Requests -/

/-- A call that has got further counts for everything that it has counted for. -/
theorem exists_mem_set {P : RequestCall → Prop} {calls : List RequestCall} {i : Nat}
    {c : RequestCall} (hi : calls[i]? = some c) (hP : P c → P c.advanced) :
    (∃ x ∈ calls.set i c.advanced, P x) ↔ (∃ x ∈ calls, P x) ∨ P c.advanced := by
  obtain ⟨hlt, hc⟩ := List.getElem?_eq_some_iff.mp hi
  constructor
  · rintro ⟨x, hx, hPx⟩
    obtain hx | rfl := List.mem_or_eq_of_mem_set hx
    · exact .inl ⟨x, hx, hPx⟩
    · exact .inr hPx
  · rintro (⟨x, hx, hPx⟩ | hPc)
    · obtain ⟨j, hj, rfl⟩ := List.mem_iff_getElem.mp hx
      by_cases hij : i = j
      · subst hij
        rw [hc] at hPx
        exact ⟨c.advanced, List.mem_set hlt _, hP hPx⟩
      · refine ⟨calls[j], ?_, hPx⟩
        rw [List.mem_iff_getElem]
        exact ⟨j, by simpa using hj, List.getElem_set_ne hij _⟩
    · exact ⟨c.advanced, List.mem_set hlt _, hPc⟩

theorem mem_stored_advanced {c : RequestCall} {s t : Store} (hs : c.request.stores[c.made]? = some s) :
    t ∈ c.advanced.stored ↔ t ∈ c.stored ∨ t = s := by
  rw [RequestCall.stored, RequestCall.advanced, List.take_add_one, hs]
  simp [RequestCall.stored]

/-- What the flags and the events tell about the calls. -/
structure Accounts (events : List Event) (l : Life) : Prop where
  /-- A flag is set by the calls that have made a store to it, and by nothing else. -/
  flag : ∀ t, l.flag t ↔ ∃ c ∈ l.calls, t ∈ c.stored
  called : ∀ r, .called r ∈ events ↔ ∃ c ∈ l.calls, c.request = r
  stored : ∀ r n, .stored r n ∈ events ↔ ∃ c ∈ l.calls, c.request = r ∧ n < c.made

theorem Accounts.step {events : List Event} (h : Accounts events l) (hstep : l.Step e l') :
    Accounts (events ++ [e]) l' := by
  obtain ⟨hflag, hcalls, hcalled, hstored⟩ | ⟨r, rfl, hflag, hcalls⟩ |
    ⟨i, c, s, rfl, hi, hs, hflag, hcalls⟩ := hstep.request_cases
  · refine ⟨?_, ?_, ?_⟩
    · intro t
      rw [hflag, hcalls, h.flag]
    · intro r
      rw [hcalls, ← h.called]
      simp [Ne.symm (hcalled r)]
    · intro r n
      rw [hcalls, ← h.stored]
      simp [Ne.symm (hstored r n)]
  · refine ⟨?_, ?_, ?_⟩
    · intro t
      rw [hflag, hcalls, h.flag]
      simp [RequestCall.begun, RequestCall.stored]
    · intro r'
      rw [hcalls, List.mem_append, h.called]
      simp [RequestCall.begun, eq_comm]
    · intro r' n
      rw [hcalls, List.mem_append, h.stored]
      simp [RequestCall.begun]
  · have hc : c ∈ l.calls := List.mem_of_getElem? hi
    refine ⟨?_, ?_, ?_⟩
    · intro t
      have hbefore : t ∈ c.stored → l.flag t := fun ht => (h.flag t).mpr ⟨c, hc, ht⟩
      rw [hflag, hcalls, exists_mem_set hi fun ht => (mem_stored_advanced hs).mpr (.inl ht),
        ← h.flag, mem_stored_advanced hs, Bool.or_eq_true, beq_iff_eq, ← or_assoc,
        or_iff_left_of_imp hbefore]
    · intro r
      have hbefore : c.request = r → .called r ∈ events := fun hr => (h.called r).mpr ⟨c, hc, hr⟩
      rw [hcalls, exists_mem_set hi id, ← h.called, List.mem_append]
      simpa [RequestCall.advanced] using hbefore
    · intro r n
      have hbefore : c.request = r → n < c.made → .stored r n ∈ events :=
        fun hr hn => (h.stored r n).mpr ⟨c, hc, hr, hn⟩
      rw [hcalls, exists_mem_set hi fun hc => ⟨hc.1, Nat.lt_succ_of_lt hc.2⟩, ← h.stored,
        List.mem_append, List.mem_singleton, Event.stored.injEq]
      change _ ↔ _ ∨ c.request = r ∧ n < c.made + 1
      constructor
      · rintro (h | ⟨rfl, rfl⟩)
        · exact .inl h
        · exact .inr ⟨rfl, Nat.lt_succ_self _⟩
      · rintro (h | ⟨hr, hn⟩)
        · exact .inl h
        · obtain hn | rfl := Nat.lt_or_eq_of_le (Nat.le_of_lt_succ hn)
          · exact .inl (hbefore hr hn)
          · exact .inr ⟨hr.symm, rfl⟩

theorem accounts_leads {events : List Event} (h : start.Leads events l) : Accounts events l := by
  induction h with
  | here =>
    refine ⟨?_, by simp [start], by simp [start]⟩
    intro t
    cases t <;> simp [flag, start, Daemon.new, Flags.clear]
  | next _ hstep ih => exact ih.step hstep

theorem restart_mem_stored {c : RequestCall} :
    Store.restart ∈ c.stored ↔ c.request = .restart ∧ 1 ≤ c.made := by
  obtain ⟨_ | _, _ | n⟩ := c <;> simp [RequestCall.stored, Request.stores, Flags.stopStores,
    Flags.restartStores]

theorem stop_mem_stored {c : RequestCall} :
    Store.stop ∈ c.stored ↔
      c.request = .stop ∧ 1 ≤ c.made ∨ c.request = .restart ∧ 2 ≤ c.made := by
  obtain ⟨_ | _, _ | _ | n⟩ := c <;> simp [RequestCall.stored, Request.stores, Flags.stopStores,
    Flags.restartStores]

/-! ## Phases -/

/-- The phases that a server has entered by the time it is in this one. -/
def entered : Phase → List Phase
  | .uninitialized => []
  | .initialized => [.initialized]
  | .running => [.initialized, .running]
  | .stopped => [.initialized, .running, .stopped]

/-- The phase that an event takes a server to. -/
def Event.enters? : Event → Option Phase
  | .init _ _ (.ok _) => some .initialized
  | .accepted => some .running
  | .returned _ => some .stopped
  | _ => none

/-- An initialization has succeeded and no run has been accepted since. -/
def Pending (events : List Event) : Prop :=
  ∃ before path fs after, events = before ++ .init path fs (.ok ()) :: after ∧ .accepted ∉ after

/-- What the phase, what is held ready and what the run is at tell about each other
    and about the past. -/
structure Sound (events : List Event) (l : Life) : Prop where
  entered : events.filterMap Event.enters? = entered l.daemon.phase
  prepared : l.daemon.prepared.isSome ↔ l.daemon.phase = .initialized
  pending : Pending events ↔ l.daemon.phase = .initialized
  away : l.supervisor = .away ↔ l.daemon.phase ≠ .running
  alerted : l.supervisor = .alerted → .loadedStop true ∈ events
  closing : ∀ x, l.supervisor = .closing x → .loadedRestart x ∈ events

theorem pending_concat {events : List Event} {e : Event} :
    Pending (events ++ [e]) ↔
      (∃ path fs, e = .init path fs (.ok ())) ∨ Pending events ∧ e ≠ .accepted := by
  constructor
  · rintro ⟨before, path, fs, after, hevents, hafter⟩
    obtain rfl | ⟨after, last, rfl⟩ := List.eq_nil_or_concat after
    · obtain ⟨-, hlast⟩ := List.append_inj' hevents rfl
      exact .inl ⟨path, fs, List.singleton_inj.mp hlast⟩
    · rw [List.concat_eq_append] at hevents hafter
      rw [← List.cons_append, ← List.append_assoc] at hevents
      obtain ⟨rfl, hlast⟩ := List.append_inj' hevents rfl
      obtain rfl := List.singleton_inj.mp hlast
      simp only [List.mem_append, List.mem_singleton, not_or] at hafter
      exact .inr ⟨⟨before, path, fs, after, rfl, hafter.1⟩, Ne.symm hafter.2⟩
  · rintro (⟨path, fs, rfl⟩ | ⟨⟨before, path, fs, after, rfl, hafter⟩, he⟩)
    · exact ⟨events, path, fs, [], rfl, List.not_mem_nil⟩
    · refine ⟨before, path, fs, after ++ [e], by simp, ?_⟩
      simp [hafter, Ne.symm he]

/-- What enters no phase changes nothing but what a run is at. -/
theorem Sound.within {events : List Event} (h : Sound events l) (he : e.enters? = none)
    (hphase : l'.daemon.phase = l.daemon.phase) (hprepared : l'.daemon.prepared = l.daemon.prepared)
    (haway : l'.supervisor = .away ↔ l.supervisor = .away)
    (halerted : l'.supervisor = .alerted → l.supervisor = .alerted ∨ e = .loadedStop true)
    (hclosing : ∀ x, l'.supervisor = .closing x →
      l.supervisor = .closing x ∨ e = .loadedRestart x) : Sound (events ++ [e]) l' where
  entered := by
    rw [List.filterMap_append, h.entered, hphase]
    simp [he]
  prepared := by rw [hprepared, hphase, h.prepared]
  pending := by
    have hinit : ¬ ∃ path fs, e = .init path fs (.ok ()) := by
      rintro ⟨path, fs, rfl⟩
      cases he
    have haccepted : e ≠ .accepted := by
      rintro rfl
      cases he
    rw [pending_concat, hphase, ← h.pending]
    simp [hinit, haccepted]
  away := by rw [haway, hphase, h.away]
  alerted := by
    intro hl'
    obtain hl | rfl := halerted hl'
    · exact List.mem_append_left _ (h.alerted hl)
    · exact List.mem_concat_self
  closing := by
    intro x hl'
    obtain hl | rfl := hclosing x hl'
    · exact List.mem_append_left _ (h.closing x hl)
    · exact List.mem_concat_self

theorem Sound.step {events : List Event} (h : Sound events l) (hstep : l.Step e l') :
    Sound (events ++ [e]) l' := by
  cases hstep with
  | init haway path fs =>
    obtain ⟨prepared, hphase, hresult, hdaemon⟩ | ⟨cause, hresult, hdaemon⟩ :=
      l.daemon.init_cases path fs
    · rw [hresult, hdaemon]
      refine ⟨?_, by simp, ?_, by simp [haway], by simp [haway], by simp [haway]⟩
      · rw [List.filterMap_append, h.entered, hphase]
        rfl
      · rw [pending_concat]
        simp
    · rw [hresult, hdaemon]
      exact h.within rfl rfl rfl .rfl .inl fun _ => .inl
  | refuse haway htake =>
    obtain ⟨-, -, rfl⟩ := Daemon.take_eq_error htake
    exact h.within rfl rfl rfl .rfl .inl fun _ => .inl
  | accept haway htake =>
    obtain ⟨hsome, rfl⟩ := Daemon.take_eq_ok htake
    have hphase : l.daemon.phase = .initialized := h.prepared.mp (by rw [hsome]; rfl)
    refine ⟨?_, by simp [Daemon.launch], ?_, by simp [Daemon.launch], by simp, by simp⟩
    · rw [List.filterMap_append, h.entered, hphase]
      rfl
    · rw [pending_concat]
      simp [Daemon.launch]
  | call r => exact h.within rfl rfl rfl .rfl .inl fun _ => .inl
  | store hi hs => exact h.within rfl rfl rfl .rfl .inl fun _ => .inl
  | loadStop hpolling =>
    refine h.within rfl rfl rfl ?_ ?_ ?_
    · rw [hpolling]
      cases l.daemon.flags.stop <;> simp
    · intro hseen
      cases hstop : l.daemon.flags.stop with
      | true => exact .inr rfl
      | false => simp [hstop] at hseen
    · intro x
      cases l.daemon.flags.stop <;> simp
  | loadRestart halerted =>
    refine h.within rfl rfl rfl (by simp [halerted]) (by simp) ?_
    rintro x ⟨⟩
    exact .inr rfl
  | ret hclosing =>
    have hphase : l.daemon.phase = .running := by
      have haway := h.away
      rw [hclosing] at haway
      simpa using haway
    have hunprepared : ¬ l.daemon.prepared.isSome := by simp [h.prepared, hphase]
    refine ⟨?_, ?_, ?_, by simp [Daemon.conclude], by simp, by simp⟩
    · rw [List.filterMap_append, h.entered, hphase]
      rfl
    · simpa [Daemon.conclude] using hunprepared
    · rw [pending_concat, h.pending, hphase]
      simp [Daemon.conclude]

theorem sound_leads {events : List Event} (h : start.Leads events l) : Sound events l := by
  induction h with
  | here =>
    refine ⟨rfl, by simp [start, Daemon.new], ?_, by simp [start, Daemon.new], nofun, nofun⟩
    simp [Pending, start, Daemon.new]
  | next _ hstep ih => exact ih.step hstep

/-! ## Whole calls -/

/-- All stores of the requests, one request after the other. -/
def fulfill (requests : List Request) (f : Flags) : Flags :=
  (requests.flatMap Request.stores).foldl Flags.store f

theorem step_store_last (l : Life) {c : RequestCall} {s : Store}
    (hs : c.request.stores[c.made]? = some s) :
    Step { l with calls := l.calls ++ [c] } (.stored c.request c.made)
      { l with daemon.flags := l.daemon.flags.store s, calls := l.calls ++ [c.advanced] } := by
  have hstep := Step.store (l := { l with calls := l.calls ++ [c] }) (i := l.calls.length)
    List.getElem?_concat_length hs
  rwa [List.set_append_right _ _ (Nat.le_refl _), Nat.sub_self] at hstep

/-- A request can be made with nothing in between. -/
theorem leads_request (l : Life) (r : Request) :
    ∃ events c, l.Leads events
      { l with daemon.flags := fulfill [r] l.daemon.flags, calls := l.calls ++ [c] } := by
  have hbegun := Leads.single (.call (l := l) r)
  cases r with
  | stop =>
    have hstored := hbegun.next (step_store_last l (c := .begun .stop) (s := .stop) rfl)
    exact ⟨_, _, hstored⟩
  | restart =>
    have hfirst := hbegun.next (step_store_last l (c := .begun .restart) (s := .restart) rfl)
    have hsecond := hfirst.next (step_store_last { l with daemon.flags := _ } (s := .stop) rfl)
    exact ⟨_, _, hsecond⟩

theorem leads_requests (l : Life) (requests : List Request) :
    ∃ events calls, l.Leads events
      { l with daemon.flags := fulfill requests l.daemon.flags, calls := l.calls ++ calls } := by
  induction requests generalizing l with
  | nil => exact ⟨[], [], by simpa [fulfill] using Leads.here⟩
  | cons r requests ih =>
    obtain ⟨events, c, hr⟩ := l.leads_request r
    obtain ⟨more, calls, hmore⟩ := ih _
    refine ⟨events ++ more, c :: calls, ?_⟩
    have hall := hr.trans hmore
    simpa [fulfill, List.foldl_append] using hall

/-- A run ends with nothing in between once the stop flag is set. -/
theorem leads_conclude (hpolling : l.supervisor = .polling) (hstop : l.daemon.flags.stop) :
    ∃ events, l.Leads (events ++ [.returned l.daemon.conclude.1])
      ⟨l.daemon.conclude.2, .away, l.calls⟩ := by
  have hseen : l.Step (.loadedStop true) { l with supervisor := .alerted } := by
    have hload := Step.loadStop hpolling
    rwa [hstop, if_pos rfl] at hload
  have hloaded := (Leads.single hseen).next (.loadRestart rfl)
  exact ⟨_, hloaded.next (.ret rfl)⟩

/-- A whole run, during which requests are made, is a life too. -/
theorem leads_run (haway : l.supervisor = .away) (requests : List Request) {x : Disposition}
    {d : Daemon} (hrun : l.daemon.run .ended (fulfill requests) = (.ok x, d))
    (hstop : d.flags.stop) :
    ∃ events calls, l.Leads (events ++ [.returned x]) ⟨d, .away, l.calls ++ calls⟩ := by
  rw [Daemon.run] at hrun
  split at hrun
  · cases hrun
  · next taken htake =>
    obtain ⟨⟩ := hrun
    have haccepted := Leads.single (.accept haway htake)
    obtain ⟨during, calls, hrequests⟩ := leads_requests _ requests
    obtain ⟨closing, hconcluded⟩ := leads_conclude
      (l := ⟨{ taken.launch with flags := fulfill requests taken.flags }, .polling, l.calls ++ calls⟩)
      rfl hstop
    have hall := (haccepted.trans hrequests).trans hconcluded
    rw [← List.append_assoc] at hall
    exact ⟨_, calls, hall⟩

/-! ## A restart that meets a stop -/

def servable : FileSystem :=
  let settings := "[fifo]\nname = /f\n[fs]\nbuild_dir = /\n[repositories]\nconfig = /r\n"
  (FileSystem.empty.set ["s"] (.file (Text.utf8Encode settings) 0o644)).set ["r"] (.file [] 0o644)

theorem init_servable : (Daemon.new.init "/s" servable).result = .ok () := by
  have hok : (Daemon.new.init "/s" servable).result.toOption = some () := by decide +kernel
  cases hresult : (Daemon.new.init "/s" servable).result with
  | ok => rfl
  | error e =>
    rw [hresult] at hok
    cases hok

/-- A request to restart is overtaken by one to stop, and the stop flag is seen before
    the restart has stored it. -/
def overtaken : List Event :=
  [.init "/s" servable (.ok ()), .accepted, .called .restart, .called .stop, .stored .restart 0,
    .stored .stop 0, .loadedStop true, .loadedRestart .restart, .returned .restart]

theorem leads_overtaken : ∃ l, start.Leads overtaken l := by
  obtain ⟨prepared, -, -, hdaemon⟩ | ⟨e, herror, -⟩ := Daemon.new.init_cases "/s" servable
  · have hinit := Leads.single (.init (l := start) rfl "/s" servable)
    have hdaemon' : (start.daemon.init "/s" servable).daemon = _ := hdaemon
    have hresult' : (start.daemon.init "/s" servable).result = .ok () := init_servable
    rw [hresult', hdaemon'] at hinit
    have hcalled := ((hinit.next (.accept rfl rfl)).next (.call .restart)).next (.call .stop)
    have hstored := (hcalled.next (.store (i := 0) rfl rfl)).next (.store (i := 1) rfl rfl)
    have hloaded := (hstored.next (.loadStop rfl)).next (.loadRestart rfl)
    exact ⟨_, hloaded.next (.ret rfl)⟩
  · rw [init_servable] at herror
    cases herror

end Life

end BuildServer
