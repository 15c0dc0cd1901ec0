-- SUMMARY: What a computation with errors was made of, told from its result.
import Mathlib.Tactic.Common

/-!
# Results and errors

A computation that has a result had one in each of its parts, and one that has an
error has it from the first part that fails.
-/

namespace BuildServer

variable {ε α β δ : Type}

theorem bind_eq_ok {x : Except ε α} {f : α → Except ε β} {b : β} :
    x >>= f = .ok b ↔ ∃ a, x = .ok a ∧ f a = .ok b := by
  constructor
  · intro h
    cases x with
    | error e => cases h
    | ok a => exact ⟨a, rfl, h⟩
  · rintro ⟨a, rfl, h⟩
    exact h

theorem map_eq_ok {x : Except ε α} {f : α → β} {b : β} :
    x.map f = .ok b ↔ ∃ a, x = .ok a ∧ f a = b := by
  constructor
  · intro h
    cases x with
    | error e => cases h
    | ok a => exact ⟨a, rfl, Except.ok.inj h⟩
  · rintro ⟨a, rfl, rfl⟩
    rfl

theorem map_eq_error {x : Except ε α} {f : α → β} {e : ε} :
    x.map f = .error e ↔ x = .error e := by
  cases x <;> simp [Except.map]

theorem mapError_ok (a : α) (f : ε → δ) : (Except.ok a : Except ε α).mapError f = .ok a := rfl

theorem mapError_error (e : ε) (f : ε → δ) :
    (Except.error e : Except ε α).mapError f = .error (f e) := rfl

theorem mapError_eq_ok {x : Except ε α} {f : ε → δ} {a : α} :
    x.mapError f = .ok a ↔ x = .ok a := by
  cases x <;> simp [Except.mapError]

theorem mapError_eq_error {x : Except ε α} {f : ε → δ} {d : δ} :
    x.mapError f = .error d ↔ ∃ e, x = .error e ∧ f e = d := by
  cases x <;> simp [Except.mapError]

/-! ## Traversals -/

theorem mem_of_mapM_ok {f : α → Except ε β} {xs : List α} {ys : List β} (h : xs.mapM f = .ok ys) :
    (∀ x ∈ xs, ∃ y ∈ ys, f x = .ok y) ∧ ∀ y ∈ ys, ∃ x ∈ xs, f x = .ok y := by
  induction xs generalizing ys with
  | nil =>
    obtain ⟨⟩ := h
    simp
  | cons x xs ih =>
    rw [List.mapM_cons] at h
    obtain ⟨y, hx, h⟩ := bind_eq_ok.mp h
    obtain ⟨ys, hxs, h⟩ := bind_eq_ok.mp h
    obtain ⟨⟩ := h
    obtain ⟨hforward, hback⟩ := ih hxs
    refine ⟨List.forall_mem_cons.mpr ⟨⟨y, List.mem_cons_self, hx⟩, ?_⟩,
      List.forall_mem_cons.mpr ⟨⟨x, List.mem_cons_self, hx⟩, ?_⟩⟩
    · intro x' hx'
      obtain ⟨y', hy', heq⟩ := hforward x' hx'
      exact ⟨y', List.mem_cons_of_mem _ hy', heq⟩
    · intro y' hy'
      obtain ⟨x', hx', heq⟩ := hback y' hy'
      exact ⟨x', List.mem_cons_of_mem _ hx', heq⟩

/-- A traversal fails with what its first failing element gives. -/
theorem exists_of_mapM_error {f : α → Except ε β} {xs : List α} {e : ε}
    (h : xs.mapM f = .error e) :
    ∃ before x after, xs = before ++ x :: after ∧ (∀ y ∈ before, ∃ b, f y = .ok b) ∧
      f x = .error e := by
  induction xs with
  | nil => cases h
  | cons x xs ih =>
    rw [List.mapM_cons] at h
    cases hx : f x with
    | error e' =>
      rw [hx] at h
      obtain ⟨⟩ := h
      exact ⟨[], x, xs, rfl, nofun, hx⟩
    | ok b =>
      cases hxs : xs.mapM f with
      | error e' =>
        rw [hx, hxs] at h
        obtain ⟨⟩ := h
        obtain ⟨before, y, after, rfl, hbefore, hy⟩ := ih hxs
        exact ⟨x :: before, y, after, rfl, List.forall_mem_cons.mpr ⟨⟨b, hx⟩, hbefore⟩, hy⟩
      | ok bs =>
        rw [hx, hxs] at h
        cases h

end BuildServer
