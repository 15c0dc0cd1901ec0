-- SUMMARY: What the steps of builds do to the site they are on.
import BuildServer.Pipeline.Basic

/-!
# Steps on a site

A step of a build comes to a result or to a halt, and leaves a site behind in
both cases. The equations here say what the basic steps and their combinations
do. A step that runs programs is described by the invocations that it adds to
the record.
-/

namespace BuildServer.Build

variable {α β γ σ : Type}

/-- What a step comes to on a site, and the site that it leaves. -/
def on (b : Build α) (s : Site) : Except Halt α × Site :=
  b.run.run s

@[simp] theorem on_pure (a : α) (s : Site) : on (pure a) s = (.ok a, s) := rfl

@[simp] theorem on_throw (h : Halt) (s : Site) : on (throw h : Build α) s = (.error h, s) := rfl

@[simp] theorem on_fail (stage : Stage) (cause : StageError) (s : Site) :
    on (fail stage cause : Build α) s = (.error (.failed ⟨stage, cause⟩), s) := rfl

@[simp] theorem on_report (e : Event) (s : Site) :
    on (report e) s = (.ok (), { s with events := s.events ++ [e] }) := rfl

@[simp] theorem on_inspect (f : FileSystem → α) (s : Site) : on (inspect f) s = (.ok (f s.fs), s) :=
  rfl

@[simp] theorem on_invoke (env : BuildEnvironment) (i : Invocation) (s : Site) :
    on (invoke env i) s = (.ok (env.run i s.fs).1,
      { s with fs := (env.run i s.fs).2, calls := s.calls ++ [i] }) := rfl

@[simp] theorem on_modifyGet (f : Site → α × Site) (s : Site) :
    on (modifyGet f : Build α) s = (.ok (f s).1, (f s).2) := rfl

theorem on_bind (b : Build α) (f : α → Build β) (s : Site) :
    on (b >>= f) s = match on b s with
      | (.ok a, s') => on (f a) s'
      | (.error h, s') => (.error h, s') := by
  simp only [on, ExceptT.run_bind, StateT.run_bind]
  generalize b.run.run s = r
  obtain ⟨_ | _, s'⟩ := r <;> rfl

theorem fail_bind (stage : Stage) (cause : StageError) (f : α → Build β) :
    (fail stage cause : Build α) >>= f = fail stage cause := rfl

theorem check_ok (stage : Stage) (a : α) : check stage (.ok a) = pure a := rfl

theorem check_error (stage : Stage) (cause : StageError) :
    (check stage (.error cause) : Build α) = fail stage cause := rfl

theorem on_tryCatch (b : Build α) (f : Halt → Build α) (s : Site) :
    on (tryCatch b f) s = match on b s with
      | (.ok a, s') => (.ok a, s')
      | (.error h, s') => on (f h) s' := by
  simp only [on, ExceptT.run_tryCatch, StateT.run_bind]
  generalize b.run.run s = r
  obtain ⟨_ | _, s'⟩ := r <;> rfl

theorem on_provision (stage : Stage) (path : String) (s : Site) :
    on (provision stage path) s =
      match ((FileSystem.ensureDir path s.fs).1.map fun _ => (),
        (FileSystem.ensureDir path s.fs).2) with
      | (.ok (), fs) => (.ok (), { s with fs })
      | (.error e, fs) => (.error (.failed ⟨stage, .createDir path e⟩), { s with fs }) := by
  rw [provision, on_bind, on_modifyGet]
  generalize FileSystem.ensureDir path s.fs = r
  obtain ⟨_ | _, fs⟩ := r <;> rfl

theorem on_provision_fs (stage : Stage) (path : String) (s : Site) :
    (on (provision stage path) s).2.fs = (FileSystem.ensureDir path s.fs).2 := by
  rw [on_provision]
  generalize FileSystem.ensureDir path s.fs = made
  obtain ⟨_ | _, fs⟩ := made <;> rfl

/-- What is reported about a halt. -/
def Halt.notice : Halt → List Event
  | .failed error => [.aborted error]
  | .crashed => []

theorem on_reporting (b : Build α) (s : Site) :
    on (reporting b) s = match on b s with
      | (.ok a, s') => (.ok a, s')
      | (.error h, s') => (.error h, { s' with events := s'.events ++ h.notice }) := by
  rw [reporting, on_tryCatch]
  generalize on b s = r
  obtain ⟨_ | _, s'⟩ := r
  · next h => cases h <;> simp [on_bind, Halt.notice]
  · rfl

/-- Steps taken one after the other come to a halt at one of them, and leave the
    site that it leaves. -/
theorem on_foldlM_error {step : σ → γ → Build σ} {xs : List γ} {a : σ} {s s' : Site} {h : Halt}
    (hrun : on (xs.foldlM step a) s = (.error h, s')) :
    ∃ before x after b t, xs = before ++ x :: after ∧
      on (before.foldlM step a) s = (.ok b, t) ∧ on (step b x) t = (.error h, s') := by
  induction xs generalizing a s with
  | nil => cases hrun
  | cons x xs ih =>
    rw [List.foldlM_cons, on_bind] at hrun
    cases hx : on (step a x) s with
    | mk r t =>
      rw [hx] at hrun
      cases r with
      | error h' => exact ⟨[], x, xs, a, s, rfl, rfl, hx.trans hrun⟩
      | ok b =>
        obtain ⟨before, y, after, c, t', rfl, hbefore, hy⟩ := ih hrun
        refine ⟨x :: before, y, after, c, t', rfl, ?_, hy⟩
        rw [List.foldlM_cons, on_bind, hx]
        exact hbefore

/-! ## Records -/

/-- A way to tell from the sites before and after some steps what the steps have
    done, one entry after the other. Reports do not count. -/
structure Record (δ : Type) where
  holds : List δ → Site → Site → Prop
  reports : ∀ s events, holds [] s { s with events }
  append : ∀ {done more s t u}, holds done s t → holds more t u → holds (done ++ more) s u

/-- On every site, `b` does something and comes to a result that `Q` relates. -/
def Does {δ : Type} (R : Record δ) (b : Build α) (Q : List δ → Except Halt α → Prop) : Prop :=
  ∀ s, ∃ done, R.holds done s (on b s).2 ∧ Q done (on b s).1

namespace Does

variable {δ : Type} {R : Record δ}

theorem mono {b : Build α} {Q Q' : List δ → Except Halt α → Prop} (h : Does R b Q)
    (hsub : ∀ done r, Q done r → Q' done r) : Does R b Q' := by
  intro s
  obtain ⟨done, hdone, hQ⟩ := h s
  exact ⟨done, hdone, hsub _ _ hQ⟩

theorem pure {a : α} {Q : List δ → Except Halt α → Prop} (h : Q [] (.ok a)) :
    Does R (Pure.pure a) Q :=
  fun s => ⟨[], R.reports s s.events, h⟩

theorem halt {e : Halt} {Q : List δ → Except Halt α → Prop} (h : Q [] (.error e)) :
    Does R (throw e) Q :=
  fun s => ⟨[], R.reports s s.events, h⟩

theorem fail {stage : Stage} {cause : StageError} {Q : List δ → Except Halt α → Prop}
    (h : Q [] (.error (.failed ⟨stage, cause⟩))) : Does R (Build.fail stage cause) Q :=
  .halt h

theorem bind {b : Build α} {f : α → Build β} {Q : List δ → Except Halt α → Prop}
    {Q' : List δ → Except Halt β → Prop} (hb : Does R b Q)
    (hok : ∀ done a, Q done (.ok a) → Does R (f a) fun more r => Q' (done ++ more) r)
    (herror : ∀ done h, Q done (.error h) → Q' done (.error h)) : Does R (b >>= f) Q' := by
  intro s
  obtain ⟨done, hdone, hQ⟩ := hb s
  rw [on_bind]
  generalize on b s = r at hdone hQ
  obtain ⟨h | a, s'⟩ := r
  · exact ⟨done, hdone, herror _ _ hQ⟩
  · obtain ⟨more, hmore, hQ'⟩ := hok done a hQ s'
    exact ⟨done ++ more, R.append hdone hmore, hQ'⟩

theorem inspect_bind (f : FileSystem → α) {b : α → Build β}
    {Q : List δ → Except Halt β → Prop} (h : ∀ a, Does R (b a) Q) :
    Does R (inspect f >>= b) Q := by
  intro s
  rw [on_bind]
  exact h (f s.fs) s

theorem report_bind (e : Event) {b : Unit → Build β} {Q : List δ → Except Halt β → Prop}
    (h : Does R (b ()) Q) : Does R (report e >>= b) Q := by
  intro s
  rw [on_bind]
  obtain ⟨done, hdone, hQ⟩ := h { s with events := s.events ++ [e] }
  exact ⟨done, R.append (R.reports s _) hdone, hQ⟩

theorem reporting {b : Build α} {Q : List δ → Except Halt α → Prop} (h : Does R b Q) :
    Does R (Build.reporting b) Q := by
  intro s
  obtain ⟨done, hdone, hQ⟩ := h s
  rw [on_reporting]
  generalize on b s = r at hdone hQ
  obtain ⟨e | a, s'⟩ := r
  · have hreported := R.append hdone (R.reports s' (s'.events ++ e.notice))
    rw [List.append_nil] at hreported
    exact ⟨done, hreported, hQ⟩
  · exact ⟨done, hdone, hQ⟩

end Does

/-! ## Failures -/

/-- A failure counts for the given stage and has one of the given causes, and a crash comes
    from something that is done. -/
def Halt.Of {δ : Type} (stage : Stage) (causes : StageError → Prop) (own : List δ) : Halt → Prop
  | .failed e => e.stage = stage ∧ causes e.cause
  | .crashed => own ≠ []

/-- Where nothing is done, nothing crashes, whatever else is done around it. -/
theorem Halt.Of.weaken {δ : Type} {stage : Stage} {causes : StageError → Prop} {h : Halt}
    (hh : h.Of stage causes ([] : List δ)) (own : List δ) : h.Of stage causes own := by
  cases h with
  | failed e => exact hh
  | crashed => exact absurd rfl hh

/-- Nothing else is done, and only this stage fails, only with these causes. Steps that do
    nothing do not crash. -/
def Only {δ : Type} (stage : Stage) (causes : StageError → Prop) (own done : List δ)
    (r : Except Halt α) : Prop :=
  done = own ∧ ∀ h, r = .error h → h.Of stage causes own

namespace Only

variable {δ : Type} {stage : Stage} {causes : StageError → Prop} {own : List δ}

theorem ok (a : α) : Only stage causes own own (.ok a) := by
  refine ⟨rfl, ?_⟩
  rintro _ ⟨⟩

theorem error {h : Halt} (hh : h.Of stage causes own) :
    Only stage causes own own (.error h : Except Halt α) := by
  refine ⟨rfl, ?_⟩
  rintro _ ⟨⟩
  exact hh

end Only

namespace Does

variable {δ : Type} {R : Record δ} {stage : Stage} {causes : StageError → Prop}

theorem only_pure (a : α) : Does R (Pure.pure a) (Only stage causes []) :=
  .pure (.ok a)

theorem only_fail {cause : StageError} (h : causes cause) :
    Does R (Build.fail stage cause : Build α) (Only stage causes []) :=
  .fail (.error ⟨rfl, h⟩)

/-- A step that may end the build is followed by nothing that counts. -/
theorem only_bind {b : Build α} {f : α → Build β} {own : List δ}
    (hb : Does R b (Only stage causes own)) (hf : ∀ a, Does R (f a) (Only stage causes [])) :
    Does R (b >>= f) (Only stage causes own) := by
  refine hb.bind ?_ ?_
  · rintro done a ⟨rfl, -⟩
    refine (hf a).mono ?_
    rintro more r ⟨rfl, hr⟩
    exact ⟨List.append_nil _, fun h heq => (hr h heq).weaken _⟩
  · rintro done h ⟨rfl, hh⟩
    exact .error (hh h rfl)

theorem only_return {b : Build α} {own : List δ} (f : α → β)
    (hb : Does R b (Only stage causes own)) :
    Does R (b >>= fun a => Pure.pure (f a)) fun done r =>
      Only stage causes own done r ∧ ∀ c, r = .ok c → ∃ a, c = f a := by
  refine hb.bind ?_ ?_
  · rintro done a ⟨rfl, -⟩
    refine .pure ?_
    rw [List.append_nil]
    refine ⟨.ok (f a), ?_⟩
    rintro _ ⟨⟩
    exact ⟨a, rfl⟩
  · rintro done h ⟨rfl, hh⟩
    exact ⟨.error (hh h rfl), nofun⟩

theorem only_check {r : Except StageError α} (h : ∀ cause, r = .error cause → causes cause) :
    Does R (check stage r) (Only stage causes []) := by
  cases r with
  | ok a => exact only_pure a
  | error cause => exact only_fail (h cause rfl)

end Does

/-! ## Calls -/

/-- What steps do, seen as the invocations that they make. -/
def Record.calls : Record Invocation where
  holds calls s s' := s'.calls = s.calls ++ calls
  reports s _ := (List.append_nil s.calls).symm
  append h h' := by rw [h', h, List.append_assoc]

/-- On every site, `b` makes calls and comes to a result that `Q` relates. -/
abbrev Asks (b : Build α) (Q : List Invocation → Except Halt α → Prop) : Prop :=
  Does .calls b Q

namespace Does

variable {stage : Stage} {causes : StageError → Prop}

theorem only_invoke (env : BuildEnvironment) (i : Invocation) :
    Asks (invoke env i) (Only stage causes [i]) :=
  fun s => ⟨[i], rfl, .ok (env.run i s.fs).1⟩

theorem only_runChecked (env : BuildEnvironment) (i : Invocation)
    (hexit : ∀ status, causes (.nonZeroExit i.line status))
    (hspawn : ∀ cause, causes (.spawn i.line cause)) :
    Asks (runChecked env stage i) (Only stage causes [i]) := by
  have hinvoke : Asks (invoke env i) (Only stage causes [i]) := only_invoke env i
  -- What follows the call may crash, so that `only_bind` does not apply.
  refine hinvoke.bind ?_ ?_
  · rintro _ outcome ⟨rfl, -⟩
    cases outcome with
    | exited status =>
      dsimp only
      split
      · exact .pure (.ok ())
      · exact .fail (.error ⟨rfl, hexit status⟩)
    | notStarted cause => exact .fail (.error ⟨rfl, hspawn cause⟩)
    | crashed => exact .halt (.error (List.cons_ne_nil i []))
  · rintro _ h ⟨rfl, hh⟩
    exact .error (hh h rfl)

theorem only_provision (path : String) (h : ∀ cause, causes (.createDir path cause)) :
    Asks (provision stage path) (Only stage causes []) := by
  refine only_bind (fun s => ⟨[], (List.append_nil _).symm, .ok _⟩) fun result => only_check ?_
  cases result with
  | ok created => nofun
  | error cause =>
    rintro _ ⟨⟩
    exact h cause

end Does

end BuildServer.Build
