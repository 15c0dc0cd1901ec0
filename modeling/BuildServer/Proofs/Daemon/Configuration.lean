-- SUMMARY: Which settings are a configuration, and which of their faults is reported.
import BuildServer.Daemon.Config
import BuildServer.Proofs.Settings.Value

/-!
# Configurations

Settings are checked in a fixed order, and the first check that they do not pass gives
the error. The keys that must be there come first, then the limits are read, and only
when both have been read is either refused for being zero. Settings that pass all checks
are a configuration. It has the values of the settings, and a default only where a key is
absent.
-/

namespace BuildServer.DaemonConfig

open Text (IsNumeral)

variable {s : Settings} {config : DaemonConfig} {key : String} {e : SettingsError}

/-! ## Accepted settings -/

theorem checkPositive_eq_ok {key : String} {n : Nat} {u : Unit} :
    checkPositive key n = .ok u ↔ 1 ≤ n := by
  unfold checkPositive
  split <;> simp <;> omega

/-- What makes settings a configuration, and which one. -/
structure Gives (s : Settings) (config : DaemonConfig) : Prop where
  fifo : s.get? fifoKey = some config.fifo
  buildRoot : s.get? buildRootKey = some config.buildRoot
  registryFile : (s.get? Registry.fileKey).getD Registry.defaultFile = config.registryFile
  bindingsFile : (s.get? bindingsFileKey).getD defaultBindingsFile = config.bindingsFile
  maxJobs : s.Counts maxJobsKey defaultMaxJobs config.maxJobs
  queueDepth : s.Counts queueDepthKey defaultQueueDepth config.queueDepth
  job_possible : 1 ≤ config.maxJobs
  place_possible : 1 ≤ config.queueDepth

theorem ofSettings_eq_ok : ofSettings s = .ok config ↔ Gives s config := by
  simp only [ofSettings, Registry.fileOf, bind_eq_ok, Settings.required_eq_ok,
    Settings.getOr_path_eq_ok, Settings.getOr_count_eq_ok, checkPositive_eq_ok, pure, Except.pure,
    Except.ok.injEq]
  constructor
  · rintro ⟨_, ⟨fifo, hfifo, ⟨⟩⟩, _, ⟨buildRoot, hroot, ⟨⟩⟩, registryFile, hregistry, bindingsFile,
      hbindings, maxJobs, hjobs, queueDepth, hdepth, -, hjob, -, hplace, rfl⟩
    exact ⟨hfifo, hroot, hregistry, hbindings, hjobs, hdepth, hjob, hplace⟩
  · intro h
    exact ⟨_, ⟨_, h.fifo, rfl⟩, _, ⟨_, h.buildRoot, rfl⟩, _, h.registryFile, _, h.bindingsFile, _,
      h.maxJobs, _, h.queueDepth, (), h.job_possible, (), h.place_possible, rfl⟩

/-- A limit that is there is a numeral of 64 bits other than zero. -/
def LimitFits (s : Settings) (key : String) : Prop :=
  ∀ value, s.get? key = some value → ∃ n, IsNumeral value n ∧ 1 ≤ n ∧ n < Nat.pow 2 64

theorem limitFits_iff {default : Nat} (hdefault : 1 ≤ default) :
    LimitFits s key ↔ ∃ n, s.Counts key default n ∧ 1 ≤ n := by
  unfold LimitFits Settings.Counts
  cases s.get? key with
  | none => simp [hdefault]
  | some value => simp [and_assoc, and_comm]

theorem exists_ofSettings_eq_ok :
    (∃ config, ofSettings s = .ok config) ↔ (s.get? fifoKey).isSome ∧
      (s.get? buildRootKey).isSome ∧ LimitFits s maxJobsKey ∧ LimitFits s queueDepthKey := by
  rw [limitFits_iff (show 1 ≤ defaultMaxJobs by decide),
    limitFits_iff (show 1 ≤ defaultQueueDepth by decide)]
  constructor
  · rintro ⟨config, hok⟩
    have h := ofSettings_eq_ok.mp hok
    exact ⟨by simp [h.fifo], by simp [h.buildRoot], ⟨_, h.maxJobs, h.job_possible⟩, _, h.queueDepth,
      h.place_possible⟩
  · rintro ⟨hfifo, hroot, ⟨maxJobs, hjobs, hjob⟩, queueDepth, hdepth, hplace⟩
    obtain ⟨fifo, hfifo⟩ := Option.isSome_iff_exists.mp hfifo
    obtain ⟨buildRoot, hroot⟩ := Option.isSome_iff_exists.mp hroot
    exact ⟨⟨fifo, buildRoot, _, _, maxJobs, queueDepth⟩,
      ofSettings_eq_ok.mpr ⟨hfifo, hroot, rfl, rfl, hjobs, hdepth, hjob, hplace⟩⟩

/-! ## Refused settings -/

/-- What the setting with some key is checked for. -/
inductive Check where
  | present (key : String)
  | readable (key : String)
  | positive (key : String)
  deriving DecidableEq, Repr

/-- All checks, in the order in which they are made. -/
def checks : List Check :=
  [.present fifoKey, .present buildRootKey, .readable maxJobsKey, .readable queueDepthKey,
    .positive maxJobsKey, .positive queueDepthKey]

/-- The settings do not pass a check, and this is the error for it. -/
inductive Fails (s : Settings) : Check → SettingsError → Prop where
  | missing {key : String} (hvalue : s.get? key = none) :
      Fails s (.present key) (.missingKey key)
  /-- A value is no numeral of 64 bits. The reason is the first one from the left. -/
  | unreadable {key value : String} {cause : Text.IntegerError} (hvalue : s.get? key = some value)
      (hnumeral : ∀ n, IsNumeral value n → Nat.pow 2 64 ≤ n)
      (hcause : Text.readInteger (.unsigned 64) value = .error cause) :
      Fails s (.readable key) (.invalidValue key value (.integer cause))
  /-- However the zero is written, it is reported as a single digit. -/
  | zero {key value : String} (hvalue : s.get? key = some value) (hnumeral : IsNumeral value 0) :
      Fails s (.positive key) (.invalidValue key "0" .belowOne)

/-- The error of the first check that the settings do not pass. -/
inductive FirstFault (s : Settings) : List Check → SettingsError → Prop where
  | here {c : Check} {later : List Check} {e : SettingsError} (h : Fails s c e) :
      FirstFault s (c :: later) e
  | later {c : Check} {later : List Check} {e : SettingsError} (hpasses : ∀ e', ¬ Fails s c e')
      (h : FirstFault s later e) : FirstFault s (c :: later) e

/-- A step that makes a check, and what follows if the check is passed. -/
theorem firstFault_bind {α β : Type} {x : Except SettingsError α}
    {f : α → Except SettingsError β} {c : Check} {later : List Check}
    (hx : ∀ e', x = .error e' ↔ Fails s c e')
    (hf : ∀ a, x = .ok a → (f a = .error e ↔ FirstFault s later e)) :
    x >>= f = .error e ↔ FirstFault s (c :: later) e := by
  cases x with
  | error e' =>
    have hfails := (hx e').mp rfl
    constructor
    · rintro ⟨⟩
      exact .here hfails
    · intro h
      cases h with
      | here h => exact congrArg _ (Except.error.inj ((hx e).mpr h))
      | later hpasses => exact absurd hfails (hpasses e')
  | ok a =>
    have hpasses : ∀ e', ¬ Fails s c e' := fun e' h => nomatch (hx e').mpr h
    refine (hf a rfl).trans ⟨.later hpasses, fun h => ?_⟩
    cases h with
    | here h => exact absurd h (hpasses e)
    | later _ h => exact h

/-- A step that always has a value makes no check. -/
theorem firstFault_pass {α β : Type} {x : Except SettingsError α}
    {f : α → Except SettingsError β} {a : α} {all : List Check} (hx : x = .ok a)
    (hf : f a = .error e ↔ FirstFault s all e) : x >>= f = .error e ↔ FirstFault s all e := by
  rw [hx]
  exact hf

theorem required_eq_error : s.required .path key = .error e ↔ Fails s (.present key) e := by
  unfold Settings.required
  constructor
  · intro h
    split at h
    · next hvalue =>
      obtain ⟨⟩ := h
      exact .missing hvalue
    · cases h
  · rintro ⟨hvalue⟩
    rw [hvalue]

theorem getOr_count_eq_error {default : Nat} :
    s.getOr .count key default = .error e ↔ Fails s (.readable key) e := by
  rw [Settings.getOr_eq_error]
  constructor
  · rintro ⟨value, _, hvalue, hread, rfl⟩
    obtain ⟨cause, hcause, rfl⟩ := ValueType.count_read_eq_error.mp hread
    refine .unreadable hvalue (fun n hn => ?_) hcause
    by_contra hlt
    have hok := Text.readInteger_unsigned_eq_ok_iff.mpr ⟨n, rfl, hn, Nat.lt_of_not_le hlt⟩
    rw [hcause] at hok
    cases hok
  · intro h
    cases h with
    | unreadable hvalue _ hcause =>
      exact ⟨_, _, hvalue, ValueType.count_read_eq_error.mpr ⟨_, hcause, rfl⟩, rfl⟩

/-- Of a limit that has been read. A default is never refused. -/
theorem checkPositive_eq_error {default n : Nat} (hdefault : 1 ≤ default)
    (hn : s.getOr .count key default = .ok n) :
    checkPositive key n = .error e ↔ Fails s (.positive key) e := by
  have hcounts := Settings.getOr_count_eq_ok.mp hn
  constructor
  · intro h
    unfold checkPositive at h
    split at h
    · next hzero =>
      obtain ⟨⟩ := h
      subst hzero
      unfold Settings.Counts at hcounts
      split at hcounts
      · omega
      · next hvalue => exact .zero hvalue hcounts.1
    · cases h
  · intro h
    cases h with
    | zero hvalue hnumeral =>
      have hzero : s.Counts key default 0 := by
        rw [Settings.Counts, hvalue]
        exact ⟨hnumeral, by decide⟩
      rw [Settings.getOr_count_eq_ok.mpr hzero] at hn
      obtain ⟨⟩ := hn
      rfl

theorem ofSettings_eq_error_iff : ofSettings s = .error e ↔ FirstFault s checks e := by
  rw [ofSettings]
  refine firstFault_bind (fun _ => required_eq_error) fun fifo _ => ?_
  refine firstFault_bind (fun _ => required_eq_error) fun buildRoot _ => ?_
  -- The names of the other files cannot be refused.
  refine firstFault_pass (Settings.getOr_path_eq_ok.mpr rfl) ?_
  refine firstFault_pass (Settings.getOr_path_eq_ok.mpr rfl) ?_
  refine firstFault_bind (fun _ => getOr_count_eq_error) fun maxJobs hjobs => ?_
  refine firstFault_bind (fun _ => getOr_count_eq_error) fun queueDepth hdepth => ?_
  refine firstFault_bind (fun _ => checkPositive_eq_error (by decide) hjobs) fun _ _ => ?_
  refine firstFault_bind (fun _ => checkPositive_eq_error (by decide) hdepth) fun _ _ => ?_
  exact ⟨nofun, nofun⟩

/-- Settings are a configuration if and only if the keys that must be there are and the
    limits are numerals of 64 bits other than zero, where they are there. It has the values
    of the settings, and defaults for absent keys only. Otherwise the error is that of the
    first check that is not passed. -/
theorem configuration_exact (s : Settings) :
    ((∃ config, ofSettings s = .ok config) ↔ (s.get? fifoKey).isSome ∧
      (s.get? buildRootKey).isSome ∧ LimitFits s maxJobsKey ∧ LimitFits s queueDepthKey) ∧
    (∀ config, ofSettings s = .ok config ↔ Gives s config) ∧
    ∀ e, ofSettings s = .error e ↔ FirstFault s checks e :=
  ⟨exists_ofSettings_eq_ok, fun _ => ofSettings_eq_ok, fun _ => ofSettings_eq_error_iff⟩

end BuildServer.DaemonConfig
