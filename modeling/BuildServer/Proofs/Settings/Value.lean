-- SUMMARY: When a setting has a value of a type, and which counts are read.
import BuildServer.Proofs.Except
import BuildServer.Proofs.Text.Integer
import BuildServer.Settings.Value

/-!
# Values of settings

A setting that is there is read, whether it has a default or not. A default stands for
a setting only if that is absent.
-/

namespace BuildServer

open Text (IsNumeral)

theorem ValueType.count_read_eq_ok {s : String} {n : Nat} :
    ValueType.count.read s = .ok n ↔ IsNumeral s n ∧ n < Nat.pow 2 64 := by
  simp only [count, integer, map_eq_ok, mapError_eq_ok, Text.readInteger_unsigned_eq_ok_iff]
  constructor
  · rintro ⟨_, ⟨n, rfl, hnumeral, hlt⟩, rfl⟩
    exact ⟨hnumeral, hlt⟩
  · rintro ⟨hnumeral, hlt⟩
    exact ⟨n, ⟨n, rfl, hnumeral, hlt⟩, rfl⟩

/-- A text that is no count is reported with the fault of the integer. -/
theorem ValueType.count_read_eq_error {s : String} {e : ValueError} :
    ValueType.count.read s = .error e ↔
      ∃ cause, Text.readInteger (.unsigned 64) s = .error cause ∧ ValueError.integer cause = e := by
  simp only [count, integer, map_eq_error, mapError_eq_error]

namespace Settings

variable {α : Type} {t : ValueType α} {s : Settings} {key : String} {a default : α}

theorem required_eq_ok :
    s.required t key = .ok a ↔ ∃ value, s.get? key = some value ∧ t.read value = .ok a := by
  unfold required
  cases s.get? key with
  | none => simp
  | some value => simp [ValueType.readAt, mapError_eq_ok]

theorem getOr_of_none (h : s.get? key = none) : s.getOr t key default = .ok default := by
  rw [getOr, h]

theorem getOr_of_some {value : String} (h : s.get? key = some value) :
    s.getOr t key default = .ok a ↔ t.read value = .ok a := by
  rw [getOr, h]
  exact mapError_eq_ok

theorem getOr_eq_error {e : SettingsError} :
    s.getOr t key default = .error e ↔ ∃ value cause, s.get? key = some value ∧
      t.read value = .error cause ∧ SettingsError.invalidValue key value cause = e := by
  unfold getOr
  cases s.get? key with
  | none => simp
  | some value => simp [ValueType.readAt, mapError_eq_error]

theorem getOr_path_eq_ok {key default value : String} :
    s.getOr .path key default = .ok value ↔ (s.get? key).getD default = value := by
  cases h : s.get? key with
  | none => simp [getOr_of_none h]
  | some value => simp [getOr_of_some h, ValueType.path]

/-- The number that a setting stands for: the one it has, or the default without it. -/
def Counts (s : Settings) (key : String) (default n : Nat) : Prop :=
  match s.get? key with
  | none => n = default
  | some value => IsNumeral value n ∧ n < Nat.pow 2 64

theorem getOr_count_eq_ok {default n : Nat} :
    s.getOr .count key default = .ok n ↔ s.Counts key default n := by
  unfold Counts
  split
  · next h => simp [getOr_of_none h, eq_comm]
  · next h => exact (getOr_of_some h).trans ValueType.count_read_eq_ok

theorem Counts.lt {default n : Nat} (h : s.Counts key default n)
    (hdefault : default < Nat.pow 2 64) : n < Nat.pow 2 64 := by
  unfold Counts at h
  split at h
  · rwa [h]
  · exact h.2

end Settings

end BuildServer
