-- SUMMARY: What a control stream brings about: the jobs that are submitted, and the flags that are set.
import BuildServer.Control.Handler
import BuildServer.Proofs.Control.Reading
import BuildServer.Proofs.Control.Command

/-!
# Requests

Of the lines of a control stream, the first that asks to stop or to restart is
the last one that matters. Every line before it that asks for a build of a known
repository is submitted once, in order, and no other line is. Whether the sink
accepts a job makes no difference to flags or to later lines.
-/

namespace BuildServer

/-! ## Commands by their text -/

namespace Command

theorem parse_of_trim_stop {text : String} (h : Text.trim text = "STOP") : parse text = .stop := by
  rw [parse, if_pos h]

theorem parse_of_trim_restart {text : String} (h : Text.trim text = "RESTART") :
    parse text = .restart := by
  have hstop : Text.trim text ≠ "STOP" := by
    rw [h]
    decide
  rw [parse, if_neg hstop, if_pos h]

/-- A line that asks neither to stop nor to restart asks for a build, or it is
    malformed. -/
theorem parse_of_trim_ne {text : String} (hstop : Text.trim text ≠ "STOP")
    (hrestart : Text.trim text ≠ "RESTART") :
    (∃ r : BuildRequest,
      Text.words text = ["BUILD", r.repo, r.profile, r.branch, r.revision] ∧
        parse text = .build r) ∨
    ((∀ repo profile branch revision,
      Text.words text ≠ ["BUILD", repo, profile, branch, revision]) ∧
        parse text = .malformed (Text.trim text)) := by
  rw [parse, if_neg hstop, if_neg hrestart, Text.words_trim]
  split
  · next repo profile branch revision h => exact .inl ⟨⟨repo, profile, branch, revision⟩, h, rfl⟩
  · next h => exact .inr ⟨h, rfl⟩

end Command

namespace Control

variable {σ : Type}

/-! ## What a line asks for -/

/-- Whether a line asks to stop or to restart. -/
def isFinal (text : String) : Bool :=
  Text.trim text == "STOP" || Text.trim text == "RESTART"

/-- The job that a line asks for, if it asks for a build of a known repository. -/
def jobOf? (registry : Registry) (text : String) : Option Job :=
  match Text.words text with
  | ["BUILD", repo, profile, branch, revision] =>
    (registry.get? repo).map fun r =>
      { repo, url := r.url, branch, revision, config := r.config, profile }
  | _ => none

/-- The arrivals up to the first line that asks to stop or to restart. -/
def uptoFinal : List Arrival → List Arrival
  | [] => []
  | .tooLong :: as => .tooLong :: uptoFinal as
  | .line text :: as => if isFinal text then [.line text] else .line text :: uptoFinal as

/-- The flags after a line that asks to stop or to restart. -/
def flagsAfter (f : Flags) (text : String) : Flags :=
  ⟨true, f.restart || Text.trim text == "RESTART"⟩

/-! ## Sinks that remember -/

/-- A sink that also keeps every job that was submitted, accepted or not. -/
def Sink.recorded (sink : Sink σ) : Sink (σ × List Job) where
  submit job state :=
    let (result, inner) := sink.submit job state.1
    (result, (inner, state.2 ++ [job]))

namespace Desk

/-- A desk whose sink has kept nothing yet. -/
def recorded (d : Desk σ) : Desk (σ × List Job) :=
  { flags := d.flags, sink := (d.sink, []), latest := d.latest }

/-- The desk without what the sink has kept. -/
def plain (d : Desk (σ × List Job)) : Desk σ :=
  { flags := d.flags, sink := d.sink.1, latest := d.latest }

variable (registry : Registry) (sink : Sink σ)

theorem dispatch_plain (r : BuildRequest) (d : Desk (σ × List Job)) :
    d.plain.dispatch registry sink r = (d.dispatch registry sink.recorded r).plain := by
  unfold dispatch
  cases registry.resolve r.repo with
  | error cause => rfl
  | ok repository =>
    rcases hsubmit : sink.submit (repository.job r.profile r.branch r.revision) d.sink.1 with
      ⟨_ | _, state⟩ <;> simp [plain, Sink.recorded, hsubmit, report]

/-- That a sink keeps what was submitted makes no difference to the desk. -/
theorem listener_shows :
    Listener.Shows plain (listener registry sink.recorded) (listener registry sink) where
  line text d := by
    simp only [listener, handleLine]
    cases Command.parse text with
    | stop => rfl
    | restart => rfl
    | build r => exact congrArg (Prod.mk Flow.more) (dispatch_plain registry sink r d)
    | malformed line => rfl
  notice _ _ := rfl

/-- A request is submitted if its repository is known, whatever comes of it. -/
theorem dispatch_recorded (r : BuildRequest) (d : Desk (σ × List Job)) :
    (d.dispatch registry sink.recorded r).flags = d.flags ∧
      (d.dispatch registry sink.recorded r).sink.2 =
        d.sink.2 ++ ((registry.get? r.repo).map fun repository =>
          repository.job r.profile r.branch r.revision).toList := by
  unfold dispatch Registry.resolve
  cases registry.get? r.repo with
  | none => simp [report]
  | some repository =>
    rcases hsubmit : sink.submit (repository.job r.profile r.branch r.revision) d.sink.1 with
      ⟨_ | _, state⟩ <;> simp [Sink.recorded, hsubmit, report]

theorem handleLine_final {text : String} (h : isFinal text) (d : Desk (σ × List Job)) :
    (d.handleLine registry sink.recorded text).1 = .done ∧
      (d.handleLine registry sink.recorded text).2.flags = flagsAfter d.flags text ∧
      (d.handleLine registry sink.recorded text).2.sink = d.sink := by
  simp only [isFinal, Bool.or_eq_true, beq_iff_eq] at h
  rcases h with h | h
  · simp [handleLine, Command.parse_of_trim_stop h, handle, report, flagsAfter, h,
      Flags.requestStop, Flags.stopStores, Flags.store]
  · simp [handleLine, Command.parse_of_trim_restart h, handle, report, flagsAfter, h,
      Flags.requestRestart, Flags.restartStores, Flags.store]

theorem handleLine_not_final {text : String} (h : isFinal text = false)
    (d : Desk (σ × List Job)) :
    (d.handleLine registry sink.recorded text).1 = .more ∧
      (d.handleLine registry sink.recorded text).2.flags = d.flags ∧
      (d.handleLine registry sink.recorded text).2.sink.2 =
        d.sink.2 ++ (jobOf? registry text).toList := by
  simp only [isFinal, Bool.or_eq_false_iff, beq_eq_false_iff_ne] at h
  rcases Command.parse_of_trim_ne h.1 h.2 with ⟨r, hwords, hparse⟩ | ⟨hwords, hparse⟩
  · obtain ⟨hflags, hsink⟩ := dispatch_recorded registry sink r d
    have hjob : jobOf? registry text = (registry.get? r.repo).map fun repository =>
        repository.job r.profile r.branch r.revision := by
      simp only [jobOf?, hwords]
      cases hget : registry.get? r.repo with
      | none => rfl
      | some repository => simp [Repository.job, registry.filed hget]
    simp only [handleLine, hparse, handle]
    exact ⟨trivial, hflags, by rw [hsink, hjob]⟩
  · have hjob : jobOf? registry text = none := by
      unfold jobOf?
      split
      · next h => exact absurd h (hwords _ _ _ _)
      · rfl
    simp [handleLine, hparse, handle, report, hjob]

/-! ## What a stream brings about -/

theorem hear_line (text : String) (d : Desk (σ × List Job)) :
    (listener registry sink.recorded).hear (.line text) d =
      d.handleLine registry sink.recorded text := by
  simp only [Listener.hear, listener]

theorem hearAll_cons_final {text : String} (h : isFinal text) (as : List Arrival)
    (d : Desk (σ × List Job)) :
    (listener registry sink.recorded).hearAll (.line text :: as) d =
      (.done, (d.handleLine registry sink.recorded text).2) := by
  have hdone := (handleLine_final registry sink h d).1
  rw [← hear_line] at hdone ⊢
  exact Listener.hearAll_cons_of_done hdone as

theorem hearAll_cons_not_final {text : String} (h : isFinal text = false) (as : List Arrival)
    (d : Desk (σ × List Job)) :
    (listener registry sink.recorded).hearAll (.line text :: as) d =
      (listener registry sink.recorded).hearAll as (d.handleLine registry sink.recorded text).2 := by
  have hmore := (handleLine_not_final registry sink h d).1
  rw [← hear_line] at hmore ⊢
  exact Listener.hearAll_cons_of_more hmore as

theorem hearAll_listener (as : List Arrival) (d : Desk (σ × List Job)) :
    let lines := as.filterMap Arrival.text?
    let last? := lines.find? isFinal
    let r := (listener registry sink.recorded).hearAll as d
    r.1 = last?.elim .more (fun _ => .done) ∧
      r.2.flags = last?.elim d.flags (flagsAfter d.flags) ∧
      r.2.sink.2 =
        d.sink.2 ++ (lines.takeWhile fun text => !isFinal text).filterMap (jobOf? registry) := by
  induction as generalizing d with
  | nil => simp [Listener.hearAll]
  | cons a as ih =>
    cases a with
    | tooLong => exact ih (d.report (.notice .lineTooLong))
    | line text =>
      cases hfinal : isFinal text with
      | true =>
        obtain ⟨-, hflags, hsink⟩ := handleLine_final registry sink hfinal d
        rw [hearAll_cons_final registry sink hfinal]
        simp [Arrival.text?, hfinal, hflags, hsink]
      | false =>
        obtain ⟨-, hflags, hsink⟩ := handleLine_not_final registry sink hfinal d
        have hrest := ih (d.handleLine registry sink.recorded text).2
        rw [hearAll_cons_not_final registry sink hfinal]
        rw [hflags, hsink] at hrest
        simp only [Arrival.text?, List.filterMap_cons, hfinal, List.takeWhile_cons,
          List.find?_cons, Bool.not_false, if_true]
        cases hjob : jobOf? registry text <;> simpa [hjob] using hrest

/-- Nothing is heard after a line that asks to stop or to restart. -/
theorem hearAll_uptoFinal (as : List Arrival) (d : Desk (σ × List Job)) :
    (listener registry sink.recorded).hearAll (uptoFinal as) d =
      (listener registry sink.recorded).hearAll as d := by
  induction as generalizing d with
  | nil => rfl
  | cons a as ih =>
    cases a with
    | tooLong => exact ih (d.report (.notice .lineTooLong))
    | line text =>
      cases hfinal : isFinal text with
      | true =>
        rw [uptoFinal, if_pos hfinal, hearAll_cons_final registry sink hfinal,
          hearAll_cons_final registry sink hfinal]
      | false =>
        rw [uptoFinal, if_neg (by simp [hfinal]), hearAll_cons_not_final registry sink hfinal,
          hearAll_cons_not_final registry sink hfinal, ih]

/-- The end of the stream is reported, and changes nothing else. -/
theorem finish_listener (ending : StreamEnd) (d : Desk (σ × List Job)) :
    ((listener registry sink.recorded).finish ending d).flags = d.flags ∧
      ((listener registry sink.recorded).finish ending d).sink = d.sink := by
  cases ending <;> exact ⟨rfl, rfl⟩

theorem attend_listener (ending : StreamEnd) (as : List Arrival) (d : Desk (σ × List Job)) :
    let lines := as.filterMap Arrival.text?
    let last? := lines.find? isFinal
    let r := (listener registry sink.recorded).attend ending as d
    r.1 = last?.elim ending.exit (fun _ => .handler) ∧
      r.2.flags = last?.elim d.flags (flagsAfter d.flags) ∧
      r.2.sink.2 =
        d.sink.2 ++ (lines.takeWhile fun text => !isFinal text).filterMap (jobOf? registry) := by
  intro lines last? r
  obtain ⟨hflow, hflags, hsink⟩ := hearAll_listener registry sink as d
  have hr : r = (listener registry sink.recorded).attend ending as d := rfl
  rcases hrun : (listener registry sink.recorded).hearAll as d with ⟨flow, d'⟩
  rw [hrun] at hflow hflags hsink
  rw [Listener.attend, hrun] at hr
  cases flow with
  | more =>
    obtain ⟨hflags', hsink'⟩ := finish_listener registry sink ending d'
    rw [hr]
    refine ⟨?_, hflags'.trans hflags, by rw [hsink']; exact hsink⟩
    change Flow.more = last?.elim _ _ at hflow
    cases hlast : last? with
    | none => rfl
    | some text => simp [hlast] at hflow
  | done =>
    rw [hr]
    refine ⟨?_, hflags, hsink⟩
    change Flow.done = last?.elim _ _ at hflow
    cases hlast : last? with
    | none => simp [hlast] at hflow
    | some text => rfl

end Desk

/-- Of the lines of a control stream, those before the first that asks to stop
    or to restart submit the jobs that they ask for, once each and in order.
    That line, if there is one, ends the reading and sets the flags, and nothing
    after it is heard. Otherwise the flags stay as they were. The run is told
    with a sink that keeps what was submitted, and is the same without. -/
theorem readLines_effects (registry : Registry) (sink : Sink σ) (deliveries : List Delivery)
    (ending : StreamEnd) (d : Desk σ) :
    let l := Desk.listener registry sink.recorded
    let s := readLines l false deliveries ending d.recorded
    let t := readLines (Desk.listener registry sink) false deliveries ending d
    let lines := linesOf ending (streamOf deliveries)
    let last? := lines.find? isFinal
    (t.exit = s.exit ∧ t.listening = s.listening.plain) ∧
      s.listening.sink.2 =
        (lines.takeWhile fun text => !isFinal text).filterMap (jobOf? registry) ∧
      s.exit = some (last?.elim ending.exit fun _ => .handler) ∧
      s.listening.flags = last?.elim d.flags (flagsAfter d.flags) ∧
      s.listening =
        (l.attend ending (uptoFinal (arrivals ending (streamOf deliveries))) d.recorded).2 := by
  intro l s t lines last?
  have hplain := (Desk.listener_shows registry sink).readLines deliveries ending d.recorded
  obtain ⟨hexit, hlistening⟩ := readLines_eq_attend l deliveries ending d.recorded
  obtain ⟨hreason, hflags, hsink⟩ := Desk.attend_listener registry sink ending
    (arrivals ending (streamOf deliveries)) d.recorded
  refine ⟨hplain, ?_⟩
  rw [show s.exit = _ from hexit, show s.listening = _ from hlistening]
  refine ⟨hsink, congrArg some hreason, hflags, ?_⟩
  rw [Listener.attend, Listener.attend, Desk.hearAll_uptoFinal registry sink]

end Control

end BuildServer
