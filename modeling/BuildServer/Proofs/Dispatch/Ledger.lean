-- SUMMARY: What becomes of the jobs that are offered to a dispatcher, in every order in which things can happen.
import BuildServer.Dispatch.Workshop
import Mathlib.Data.List.Nodup
import Mathlib.Data.List.Perm.Basic

/-!
# Ledgers

Anyone with a handle offers jobs, the loop takes slots and jobs, and builds end,
each whenever it can. A ledger keeps what has happened so far: the jobs that were
offered with their answers, the jobs that the loop has taken, and the builds that
have ended with their results. What is true of all ledgers that can come about
follows from what one occurrence does, and no result of a build makes a
difference to it.
-/

namespace BuildServer

namespace Dispatcher

open Control (SubmitError)

/-! ## Moves -/

/-- Everything that a move can be, with what it needs and what it does. -/
inductive Moves (d : Dispatcher) : Move → Dispatcher → Prop where
  | accepted {job : Job} (hhandle : 0 < d.handles) (halive : d.alive = true)
      (hroom : d.queue.length < d.depth) : Moves d (.submit job) { d with queue := d.queue ++ [job] }
  | full {job : Job} (hhandle : 0 < d.handles) (halive : d.alive = true)
      (hroom : ¬ d.queue.length < d.depth) : Moves d (.submit job) d
  | closed {job : Job} (hhandle : 0 < d.handles) (halive : d.alive = false) :
      Moves d (.submit job) d
  | share (hhandle : 0 < d.handles) : Moves d .share { d with handles := d.handles + 1 }
  | drop (hhandle : 0 < d.handles) : Moves d .drop { d with handles := d.handles - 1 }
  | acquire (halive : d.alive = true) (harmed : d.armed = false) (hfree : 0 < d.free) :
      Moves d .acquire { d with free := d.free - 1, armed := true }
  | receive {job : Job} {queue : List Job} (hqueue : d.queue = job :: queue)
      (halive : d.alive = true) (harmed : d.armed = true) :
      Moves d .receive { d with queue, armed := false, running := d.running ++ [job] }
  | finish {i : Nat} (hi : i < d.running.length) :
      Moves d (.finish i) { d with running := d.running.eraseIdx i, free := d.free + 1 }
  | leave (halive : d.alive = true) (harmed : d.armed = true) (hqueue : d.queue = [])
      (hhandle : d.handles = 0) :
      Moves d .leave { d with alive := false, armed := false, free := d.free + 1 }
  | cancel : Moves d .cancel { d with
      alive := false
      queue := []
      armed := false
      free := if d.armed then d.free + 1 else d.free }

theorem move?_eq_some_iff {d d' : Dispatcher} {m : Move} :
    d.move? m = some d' ↔ d.Moves m d' := by
  constructor
  · intro h
    cases m with
    | submit job =>
      simp only [move?] at h
      split at h
      · next hhandle =>
        obtain rfl := Option.some.inj h
        unfold submit
        split
        · next halive => exact .closed hhandle (by simpa using halive)
        · next halive =>
          rw [Bool.not_eq_true, Bool.not_eq_false'] at halive
          split
          · next hroom => exact .accepted hhandle halive hroom
          · next hroom => exact .full hhandle halive hroom
      · cases h
    | share =>
      simp only [move?] at h
      split at h
      · next hhandle => obtain rfl := Option.some.inj h; exact .share hhandle
      · cases h
    | drop =>
      simp only [move?] at h
      split at h
      · next hhandle => obtain rfl := Option.some.inj h; exact .drop hhandle
      · cases h
    | acquire =>
      simp only [move?] at h
      split at h
      · next hguard =>
        obtain rfl := Option.some.inj h
        exact .acquire hguard.1 (by simpa using hguard.2.1) hguard.2.2
      · cases h
    | receive =>
      simp only [move?] at h
      split at h
      · next hqueue =>
        split at h
        · next hguard => obtain rfl := Option.some.inj h; exact .receive hqueue hguard.1 hguard.2
        · cases h
      · cases h
    | finish i =>
      simp only [move?] at h
      split at h
      · next hi => obtain rfl := Option.some.inj h; exact .finish hi
      · cases h
    | leave =>
      simp only [move?] at h
      split at h
      · next hguard =>
        obtain rfl := Option.some.inj h
        exact .leave hguard.1 hguard.2.1 hguard.2.2.1 hguard.2.2.2
      · cases h
    | cancel =>
      obtain rfl := Option.some.inj h
      exact .cancel
  · intro h
    cases h with
    | accepted hhandle halive hroom => simp [move?, submit, hhandle, halive, hroom]
    | full hhandle halive hroom => simp [move?, submit, hhandle, halive, hroom]
    | closed hhandle halive => simp [move?, submit, hhandle, halive]
    | share hhandle => simp [move?, hhandle]
    | drop hhandle => simp [move?, hhandle]
    | acquire halive harmed hfree => simp [move?, halive, harmed, hfree]
    | receive hqueue halive harmed => simp [move?, hqueue, halive, harmed]
    | finish hi => simp [move?, hi]
    | leave halive harmed hqueue hhandle => simp [move?, halive, harmed, hqueue, hhandle]
    | cancel => rfl

/-- What one offer is answered while the loop has not ended. -/
theorem submit_answer {d : Dispatcher} (halive : d.alive = true) (job : Job) :
    (d.submit job).1 = if d.queue.length < d.depth then .ok () else .error (.queueFull d.depth) := by
  simp only [submit, halive, Bool.not_true, Bool.false_eq_true, if_false]
  split <;> rfl

/-- The slots and places of a dispatcher that was asked for possible numbers of
    both. -/
theorem start?_eq_some {maxJobs queueDepth : Nat} (hjobs : 1 ≤ maxJobs)
    (hjobs' : maxJobs ≤ permitLimit) (hdepth : 1 ≤ queueDepth) (hdepth' : queueDepth ≤ permitLimit) :
    start? maxJobs queueDepth = some ⟨maxJobs, queueDepth, [], maxJobs, false, [], 1, true⟩ := by
  have hmax : max maxJobs 1 = maxJobs := by omega
  have hmax' : max queueDepth 1 = queueDepth := by omega
  simp only [start?, hmax, hmax']
  rw [if_neg (by omega), decide_eq_true hjobs']

/-! ## Ledgers -/

/-- What can happen at a dispatcher that nobody ends from outside. A build ends
    with a result. -/
inductive Occurrence where
  | submit (job : Job)
  | share
  | drop
  | acquire
  | receive
  | finish (position : Nat) (result : Except Build.Halt BuildReport)
  | leave

/-- A dispatcher and what has happened there, each list in order. -/
structure Ledger where
  dispatcher : Dispatcher
  /-- Jobs that were offered, with the answers. -/
  offers : List (Job × Except SubmitError Unit)
  /-- Jobs that the loop has taken and whose builds it has started. -/
  taken : List Job
  /-- Jobs whose builds have ended, with the results. -/
  ended : List (Job × Except Build.Halt BuildReport)

namespace Ledger

/-- The ledger of a dispatcher where nothing has happened yet. -/
def opened (d : Dispatcher) : Ledger := ⟨d, [], [], []⟩

/-- The job of an offer that was accepted. -/
def granted? : Job × Except SubmitError Unit → Option Job
  | (job, .ok ()) => some job
  | (_, .error _) => none

def accepted (l : Ledger) : List Job := l.offers.filterMap granted?

/-- One occurrence: the move that the dispatcher makes and what is kept of it. -/
inductive Step (l : Ledger) : Occurrence → Ledger → Prop where
  | submit (job : Job) {d : Dispatcher} (h : l.dispatcher.move? (.submit job) = some d) :
      Step l (.submit job)
        { l with dispatcher := d, offers := l.offers ++ [(job, (l.dispatcher.submit job).1)] }
  | share {d : Dispatcher} (h : l.dispatcher.move? .share = some d) :
      Step l .share { l with dispatcher := d }
  | drop {d : Dispatcher} (h : l.dispatcher.move? .drop = some d) :
      Step l .drop { l with dispatcher := d }
  | acquire {d : Dispatcher} (h : l.dispatcher.move? .acquire = some d) :
      Step l .acquire { l with dispatcher := d }
  | receive {d : Dispatcher} (h : l.dispatcher.move? .receive = some d) :
      Step l .receive
        { l with dispatcher := d, taken := l.taken ++ l.dispatcher.queue.head?.toList }
  | finish (i : Nat) (result : Except Build.Halt BuildReport) {d : Dispatcher}
      (h : l.dispatcher.move? (.finish i) = some d) :
      Step l (.finish i result)
        { l with
          dispatcher := d
          ended := l.ended ++ (l.dispatcher.running[i]?.map (·, result)).toList }
  | leave {d : Dispatcher} (h : l.dispatcher.move? .leave = some d) :
      Step l .leave { l with dispatcher := d }

/-- Ledgers that can come about at a dispatcher with so many slots and places. -/
inductive Reachable (maxJobs queueDepth : Nat) : Ledger → Prop where
  | opened {d : Dispatcher} (h : start? maxJobs queueDepth = some d) :
      Reachable maxJobs queueDepth (opened d)
  | next {l l' : Ledger} {o : Occurrence} (h : Reachable maxJobs queueDepth l)
      (hstep : l.Step o l') : Reachable maxJobs queueDepth l'

/-- Ledgers that can come about from another one without a further offer. -/
inductive Later : Ledger → Ledger → Prop where
  | same (l : Ledger) : Later l l
  | next {l l' l'' : Ledger} {o : Occurrence} (hstep : l.Step o l') (hoffers : l'.offers = l.offers)
      (h : Later l' l'') : Later l l''

theorem Later.trans {l l' l'' : Ledger} (h : Later l l') (h' : Later l' l'') : Later l l'' := by
  induction h with
  | same => exact h'
  | next hstep hoffers _ ih => exact .next hstep hoffers (ih h')

theorem Later.offers {l l' : Ledger} (h : Later l l') : l'.offers = l.offers := by
  induction h with
  | same => rfl
  | next _ hoffers _ ih => exact ih.trans hoffers

theorem Later.reachable {maxJobs queueDepth : Nat} {l l' : Ledger} (h : Later l l')
    (hl : Ledger.Reachable maxJobs queueDepth l) : Ledger.Reachable maxJobs queueDepth l' := by
  induction h with
  | same => exact hl
  | next hstep _ _ ih => exact ih (hl.next hstep)

/-! ## Conservation -/

/-- What every occurrence keeps. -/
structure Sound (maxJobs queueDepth : Nat) (l : Ledger) : Prop where
  slots : l.dispatcher.slots = maxJobs
  depth : l.dispatcher.depth = queueDepth
  waiting : l.dispatcher.queue.length ≤ queueDepth
  conserved : l.dispatcher.free + (if l.dispatcher.armed then 1 else 0) +
    l.dispatcher.running.length = maxJobs
  in_order : l.accepted = l.taken ++ l.dispatcher.queue
  accounted : l.taken.Perm (l.dispatcher.running ++ l.ended.map Prod.fst)
  /-- The loop ends only when nobody has a handle and nothing waits. -/
  settled : l.dispatcher.alive = false → l.dispatcher.handles = 0 ∧ l.dispatcher.queue = []

variable {maxJobs queueDepth : Nat} {l l' : Ledger}

theorem sound_opened (hjobs : 1 ≤ maxJobs) (hjobs' : maxJobs ≤ permitLimit)
    (hdepth : 1 ≤ queueDepth) (hdepth' : queueDepth ≤ permitLimit) {d : Dispatcher}
    (h : start? maxJobs queueDepth = some d) : (opened d).Sound maxJobs queueDepth := by
  rw [start?_eq_some hjobs hjobs' hdepth hdepth'] at h
  obtain rfl := Option.some.inj h
  exact ⟨rfl, rfl, Nat.zero_le _, rfl, rfl, .refl _, by simp [opened]⟩

/-- One occurrence keeps everything, whatever the result of a build that ends. -/
theorem sound_step {o : Occurrence} (h : l.Sound maxJobs queueDepth) (hstep : l.Step o l') :
    l'.Sound maxJobs queueDepth := by
  obtain ⟨hslots, hdepth, hwaiting, hconserved, horder, haccounted, hsettled⟩ := h
  cases hstep with
  | @submit job d hmove =>
    have hanswer (halive : l.dispatcher.alive = true) := submit_answer halive job
    cases move?_eq_some_iff.mp hmove with
    | accepted hhandle halive hroom =>
      have hok := (hanswer halive).trans (if_pos hroom)
      refine ⟨hslots, hdepth, ?_, hconserved, ?_, haccounted, ?_⟩
      · simp; omega
      · rw [accepted, List.filterMap_append, ← accepted, horder, hok, List.append_assoc]
        rfl
      · simp [halive]
    | full hhandle halive hroom =>
      have herror := (hanswer halive).trans (if_neg hroom)
      refine ⟨hslots, hdepth, hwaiting, hconserved, ?_, haccounted, hsettled⟩
      rw [accepted, List.filterMap_append, ← accepted, horder, herror]
      exact List.append_nil _
    | closed hhandle halive =>
      -- With a handle around, the loop has not ended.
      exact absurd (hsettled halive).1 (by omega)
  | share hmove =>
    cases move?_eq_some_iff.mp hmove with
    | share hhandle =>
      refine ⟨hslots, hdepth, hwaiting, hconserved, horder, haccounted, fun halive => ?_⟩
      exact absurd (hsettled halive).1 (by omega)
  | drop hmove =>
    cases move?_eq_some_iff.mp hmove with
    | drop hhandle =>
      refine ⟨hslots, hdepth, hwaiting, hconserved, horder, haccounted, fun halive => ?_⟩
      exact absurd (hsettled halive).1 (by omega)
  | acquire hmove =>
    cases move?_eq_some_iff.mp hmove with
    | acquire halive harmed hfree =>
      refine ⟨hslots, hdepth, hwaiting, ?_, horder, haccounted, hsettled⟩
      simp only [harmed, Bool.false_eq_true, if_false] at hconserved
      simp only [if_true]
      omega
  | receive hmove =>
    cases move?_eq_some_iff.mp hmove with
    | @receive job queue hqueue halive harmed =>
      rw [hqueue] at hwaiting horder
      refine ⟨hslots, hdepth, ?_, ?_, ?_, ?_, ?_⟩
      · exact Nat.le_of_succ_le hwaiting
      · simp only [harmed, if_true] at hconserved
        simp only [List.length_append, List.length_singleton, Bool.false_eq_true, if_false]
        omega
      · simp only [hqueue, List.head?_cons, Option.toList_some, List.append_assoc,
          List.singleton_append]
        exact horder
      · simp only [hqueue, List.head?_cons, Option.toList_some]
        calc l.taken ++ [job]
            |>.Perm (l.dispatcher.running ++ l.ended.map Prod.fst ++ [job]) := haccounted.append_right _
          _ |>.Perm (l.dispatcher.running ++ [job] ++ l.ended.map Prod.fst) := by
            simp only [List.append_assoc]
            exact List.perm_append_comm.append_left _
      · simp [halive]
  | @finish i result d hmove =>
    cases move?_eq_some_iff.mp hmove with
    | finish hi =>
      refine ⟨hslots, hdepth, hwaiting, ?_, horder, ?_, hsettled⟩
      · simp only [List.length_eraseIdx_of_lt hi]
        omega
      · simp only [List.getElem?_eq_getElem hi, Option.map_some, Option.toList_some,
          List.map_append, List.map_cons, List.map_nil]
        have htaken : l.taken.Perm (l.dispatcher.running[i] ::
            (l.dispatcher.running.eraseIdx i ++ l.ended.map Prod.fst)) :=
          haccounted.trans ((List.getElem_cons_eraseIdx_perm hi).symm.append_right _)
        rw [← List.append_assoc]
        exact htaken.trans (List.perm_append_singleton ..).symm
  | leave hmove =>
    cases move?_eq_some_iff.mp hmove with
    | leave halive harmed hqueue hhandle =>
      refine ⟨hslots, hdepth, hwaiting, ?_, horder, haccounted, fun _ => ⟨hhandle, hqueue⟩⟩
      simp only [harmed, if_true] at hconserved
      simp only [Bool.false_eq_true, if_false]
      omega

theorem reachable_sound (hjobs : 1 ≤ maxJobs) (hjobs' : maxJobs ≤ permitLimit)
    (hdepth : 1 ≤ queueDepth) (hdepth' : queueDepth ≤ permitLimit)
    (h : Reachable maxJobs queueDepth l) : l.Sound maxJobs queueDepth := by
  induction h with
  | opened hstart => exact sound_opened hjobs hjobs' hdepth hdepth' hstart
  | next _ hstep ih => exact sound_step ih hstep

/-! ## Progress -/

/-- What remains to be done before nothing waits any more, at most. -/
def work (l : Ledger) : Nat :=
  3 * l.dispatcher.queue.length + l.dispatcher.running.length + (if l.dispatcher.armed then 0 else 1)

/-- While a job waits, something can happen that brings it closer to its start,
    without another offer. -/
theorem progress (hjobs : 1 ≤ maxJobs) (h : l.Sound maxJobs queueDepth)
    (hqueue : l.dispatcher.queue ≠ []) :
    ∃ o l', l.Step o l' ∧ l'.offers = l.offers ∧ l'.work < l.work := by
  obtain ⟨job, queue, hcons⟩ := List.exists_cons_of_ne_nil hqueue
  have halive : l.dispatcher.alive = true := by
    by_contra halive
    exact hqueue (h.settled (by simpa using halive)).2
  by_cases harmed : l.dispatcher.armed = true
  · refine ⟨_, _, .receive (move?_eq_some_iff.mpr (.receive hcons halive harmed)), rfl, ?_⟩
    simp only [work, hcons, harmed, List.length_cons, List.length_append, List.length_nil, if_true,
      Bool.false_eq_true, if_false]
    omega
  · rw [Bool.not_eq_true] at harmed
    by_cases hfree : 0 < l.dispatcher.free
    · refine ⟨_, _, .acquire (move?_eq_some_iff.mpr (.acquire halive harmed hfree)), rfl, ?_⟩
      simp [work, harmed]
    · -- All slots are with builds, so there is one that can end.
      have hconserved := h.conserved
      have hrunning : 0 < l.dispatcher.running.length := by
        simp only [harmed, Bool.false_eq_true, if_false] at hconserved
        omega
      have hmove := move?_eq_some_iff.mpr (.finish hrunning)
      refine ⟨_, _, .finish 0 (.error .crashed) hmove, rfl, ?_⟩
      simp only [work, List.length_eraseIdx_of_lt hrunning]
      omega

/-- Without another offer, all that was accepted can come to be taken. -/
theorem drains (hjobs : 1 ≤ maxJobs) (h : l.Sound maxJobs queueDepth) :
    ∃ l', Later l l' ∧ l'.taken = l.accepted := by
  induction hn : l.work using Nat.strongRecOn generalizing l with
  | ind n ih =>
    by_cases hqueue : l.dispatcher.queue = []
    · exact ⟨l, .same l, by rw [h.in_order, hqueue, List.append_nil]⟩
    · obtain ⟨o, l₁, hstep, hoffers, hwork⟩ := progress hjobs h hqueue
      obtain ⟨l₂, hlater, htaken⟩ := ih l₁.work (hn ▸ hwork) (sound_step h hstep) rfl
      refine ⟨l₂, .next hstep hoffers hlater, ?_⟩
      rw [htaken, accepted, hoffers, accepted]

/-! ## Safety -/

theorem accepted_sublist (l : Ledger) : l.accepted.Sublist (l.offers.map Prod.fst) := by
  unfold accepted
  induction l.offers with
  | nil => exact .slnil
  | cons offer offers ih =>
    obtain ⟨job, _ | _⟩ := offer
    · exact ih.cons job
    · exact ih.cons_cons job

/-- Of offers of different jobs, a refused one is never accepted as well. -/
theorem not_mem_accepted {job : Job} {e : SubmitError} (hdistinct : (l.offers.map Prod.fst).Nodup)
    (hmem : (job, .error e) ∈ l.offers) : job ∉ l.accepted := by
  intro haccepted
  obtain ⟨⟨job', answer⟩, hmem', hgranted⟩ := List.mem_filterMap.mp haccepted
  cases answer with
  | error e' => cases hgranted
  | ok u =>
    obtain rfl := Option.some.inj hgranted
    have hsame := List.inj_on_of_nodup_map hdistinct hmem hmem' rfl
    cases hsame

/-- Whatever has happened, in whatever order and with whatever results of builds:
    queue and slots keep their bounds, what was accepted is what was taken and then
    what waits, every slot is free, with the loop or with a running build, and an
    offer is refused exactly if the queue is full. -/
theorem reachable_safe (hjobs : 1 ≤ maxJobs) (hjobs' : maxJobs ≤ permitLimit)
    (hdepth : 1 ≤ queueDepth) (hdepth' : queueDepth ≤ permitLimit)
    (h : Reachable maxJobs queueDepth l) :
    l.dispatcher.queue.length ≤ queueDepth ∧ l.dispatcher.running.length ≤ maxJobs ∧
      l.accepted = l.taken ++ l.dispatcher.queue ∧
      ((l.offers.map Prod.fst).Nodup →
        l.taken.Nodup ∧ ∀ job e, (job, .error e) ∈ l.offers → job ∉ l.taken) ∧
      l.taken.Perm (l.dispatcher.running ++ l.ended.map Prod.fst) ∧
      (∃ l', Later l l' ∧ l'.taken = l.accepted) ∧
      l.dispatcher.free + (if l.dispatcher.armed then 1 else 0) + l.dispatcher.running.length =
        maxJobs ∧
      (0 < l.dispatcher.handles → ∀ job, (l.dispatcher.submit job).1 =
        if l.dispatcher.queue.length = queueDepth then .error (.queueFull queueDepth)
        else .ok ()) := by
  have hsound := reachable_sound hjobs hjobs' hdepth hdepth' h
  have hconserved := hsound.conserved
  refine ⟨hsound.waiting, by omega, hsound.in_order, ?_, hsound.accounted, drains hjobs hsound,
    hconserved, ?_⟩
  · intro hdistinct
    have hsublist : l.taken.Sublist l.accepted := by
      rw [hsound.in_order]
      exact List.sublist_append_left _ _
    refine ⟨hdistinct.sublist (hsublist.trans l.accepted_sublist), fun job e hmem htaken => ?_⟩
    exact not_mem_accepted hdistinct hmem (hsublist.subset htaken)
  · intro hhandle job
    have halive : l.dispatcher.alive = true := by
      by_contra halive
      exact absurd (hsound.settled (by simpa using halive)).1 (by omega)
    have hwaiting := hsound.waiting
    rw [submit_answer halive, hsound.depth]
    split
    · rw [if_neg (by omega)]
    · rw [if_pos (by omega)]

/-- One slot and one place: the first build crashes, the second runs, the third job
    waits, and the fourth was refused. -/
theorem reachable_safe_crowded :
    let job (repo : String) : Job := ⟨repo, "url", "main", "abc", "build.ini", "release"⟩
    ∃ l, Reachable 1 1 l ∧ l.ended = [(job "a", .error .crashed)] ∧
      l.dispatcher.running = [job "b"] ∧ l.dispatcher.queue = [job "c"] ∧
      l.accepted = l.taken ++ l.dispatcher.queue ∧
      (l.dispatcher.submit (job "d")).1 = .error (.queueFull 1) := by
  intro job
  have hopened : Reachable 1 1 (opened ⟨1, 1, [], 1, false, [], 1, true⟩) :=
    .opened (start?_eq_some (by decide) (by decide) (by decide) (by decide))
  have hfirst := (((hopened.next (.submit (job "a") rfl)).next (.acquire rfl)).next
    (.receive rfl)).next (.submit (job "b") rfl)
  have hsecond := ((hfirst.next (.finish 0 (.error .crashed) rfl)).next
    (.acquire rfl)).next (.receive rfl)
  have hfull := (hsecond.next (.submit (job "c") rfl)).next (.submit (job "d") rfl)
  obtain ⟨-, -, horder, -, -, -, -, hanswer⟩ :=
    reachable_safe (by decide) (by decide) (by decide) (by decide) hfull
  exact ⟨_, hfull, rfl, rfl, rfl, horder, hanswer (by decide) (job "d")⟩

end Ledger

end Dispatcher

end BuildServer
