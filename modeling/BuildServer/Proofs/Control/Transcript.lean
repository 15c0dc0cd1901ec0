-- SUMMARY: What a line handler is called with, and how often a line is reported as too long.
import BuildServer.Proofs.Control.Reading

/-!
# Transcripts

A line handler is a function with a state of its own that says after each line
whether it wants more. A transcript records the lines that it was called with
and counts the reports of lines that are too long. Reading gives the transcript
that the stream alone determines.
-/

namespace BuildServer.Control

/-- The state of a line handler, the lines that it was called with, and the
    number of lines that were reported as too long. -/
structure Transcript (τ : Type) where
  own : τ
  calls : List String
  warnings : Nat

variable {τ : Type}

namespace Transcript

def start (own : τ) : Transcript τ := ⟨own, [], 0⟩

def called (t : Transcript τ) (text : String) (own : τ) : Transcript τ :=
  { t with own, calls := t.calls ++ [text] }

def warned (t : Transcript τ) : Transcript τ := { t with warnings := t.warnings + 1 }

end Transcript

/-- A line handler as a listener that keeps a transcript. -/
def Listener.recording (handler : String → τ → Flow × τ) : Listener (Transcript τ) where
  line text t :=
    let (flow, own) := handler text t.own
    (flow, t.called text own)
  notice
    | .lineTooLong, t => t.warned
    | .closed, t => t
    | .readFailed _, t => t

/-- The arrivals up to the first line of which a handler has enough, and
    whether there is one. -/
def heard (handler : String → τ → Flow × τ) : τ → List Arrival → List Arrival × Flow
  | _, [] => ([], .more)
  | own, .tooLong :: as => (.tooLong :: (heard handler own as).1, (heard handler own as).2)
  | own, .line text :: as =>
    match handler text own with
    | (.done, _) => ([.line text], .done)
    | (.more, own) => (.line text :: (heard handler own as).1, (heard handler own as).2)

theorem hearAll_recording (handler : String → τ → Flow × τ) (as : List Arrival)
    (t : Transcript τ) :
    ((Listener.recording handler).hearAll as t).1 = (heard handler t.own as).2 ∧
      ((Listener.recording handler).hearAll as t).2.calls =
        t.calls ++ (heard handler t.own as).1.filterMap Arrival.text? ∧
      ((Listener.recording handler).hearAll as t).2.warnings =
        t.warnings + (heard handler t.own as).1.count .tooLong := by
  induction as generalizing t with
  | nil => simp [Listener.hearAll, heard]
  | cons a as ih =>
    cases a with
    | tooLong =>
      obtain ⟨hflow, hcalls, hwarnings⟩ := ih t.warned
      refine ⟨hflow, hcalls, hwarnings.trans ?_⟩
      simp [heard, Transcript.warned]
      omega
    | line text =>
      rcases hhandler : handler text t.own with ⟨_ | _, own⟩
      · obtain ⟨hflow, hcalls, hwarnings⟩ := ih (t.called text own)
        have hstep : (Listener.recording handler).hearAll (.line text :: as) t =
            (Listener.recording handler).hearAll as (t.called text own) := by
          simp [Listener.hearAll, Listener.hear, Listener.recording, hhandler]
        simp only [heard, hhandler, hstep]
        refine ⟨hflow, hcalls.trans ?_, hwarnings.trans ?_⟩
        · simp [Transcript.called, Arrival.text?]
        · simp [Transcript.called]
      · simp [Listener.hearAll, Listener.hear, Listener.recording, heard, hhandler,
          Transcript.called, Arrival.text?]

/-- The end of the stream adds nothing to a transcript. -/
theorem finish_recording (handler : String → τ → Flow × τ) (ending : StreamEnd)
    (t : Transcript τ) : (Listener.recording handler).finish ending t = t := by
  cases ending <;> rfl

theorem attend_recording (handler : String → τ → Flow × τ) (ending : StreamEnd)
    (as : List Arrival) (t : Transcript τ) :
    ((Listener.recording handler).attend ending as t).1 =
        (match (heard handler t.own as).2 with | .done => .handler | .more => ending.exit) ∧
      ((Listener.recording handler).attend ending as t).2.calls =
        t.calls ++ (heard handler t.own as).1.filterMap Arrival.text? ∧
      ((Listener.recording handler).attend ending as t).2.warnings =
        t.warnings + (heard handler t.own as).1.count .tooLong := by
  obtain ⟨hflow, hcalls, hwarnings⟩ := hearAll_recording handler as t
  rw [Listener.attend, ← hflow, ← hcalls, ← hwarnings]
  rcases (Listener.recording handler).hearAll as t with ⟨_ | _, t'⟩
  · simp [finish_recording]
  · simp

/-- However the stream is divided and whenever the reader is woken, the handler
    is called with the lines of the stream in order, up to the first of which it
    has enough, and each line that is too long is reported once. What comes after
    the last newline is handed over only if the stream was closed. If it is too long,
    it is reported once at every end, also where it is never handed over. -/
theorem readLines_transcript (handler : String → τ → Flow × τ) (own : τ)
    (deliveries : List Delivery) (ending : StreamEnd) :
    let s := readLines (.recording handler) false deliveries ending (.start own)
    let (as, flow) := heard handler own (arrivals ending (streamOf deliveries))
    s.listening.calls = as.filterMap Arrival.text? ∧
      s.listening.warnings = as.count .tooLong ∧
      s.exit = some (match flow with | .done => .handler | .more => ending.exit) := by
  intro s
  obtain ⟨hexit, hlistening⟩ :=
    readLines_eq_attend (.recording handler) deliveries ending (.start own)
  obtain ⟨hflow, hcalls, hwarnings⟩ :=
    attend_recording handler ending (arrivals ending (streamOf deliveries)) (.start own)
  refine ⟨?_, ?_, ?_⟩
  · rw [show s.listening = _ from hlistening, hcalls]
    rfl
  · rw [show s.listening = _ from hlistening, hwarnings]
    exact Nat.zero_add _
  · rw [show s.exit = _ from hexit, hflow]
    rfl

end BuildServer.Control
