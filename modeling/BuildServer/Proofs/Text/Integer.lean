-- SUMMARY: Which texts are unsigned integers: those of digits, maybe behind a plus sign, whose value fits.
import BuildServer.Text.Integer
import Mathlib.Tactic.Common

/-!
# Unsigned integers

Reading stops at the first digit that takes the value out of range. More digits never
make a value smaller, so a text is read exactly if all of it is digits and its whole
value fits.
-/

namespace BuildServer.Text

/-- One or more digits, maybe behind a plus sign, that have this value. -/
def IsNumeral (s : String) (n : Nat) : Prop :=
  ∃ digits, digits ≠ [] ∧ (∀ c ∈ digits, c.isDigit) ∧
    (s.toList = digits ∨ s.toList = '+' :: digits) ∧ Nat.ofDigitChars 10 digits 0 = n

/-- What is written for a number is a numeral of it. -/
theorem isNumeral_repr (n : Nat) : IsNumeral n.repr n :=
  ⟨Nat.toDigits 10 n, Nat.toDigits_ne_nil,
    fun _ hc => Nat.isDigit_of_mem_toDigits (by decide) (by decide) hc, .inl Nat.toList_repr,
    Nat.ofDigitChars_toDigits (by decide) (by decide)⟩

theorem le_ofDigitChars (digits : List Char) (n : Nat) : n ≤ Nat.ofDigitChars 10 digits n := by
  induction digits generalizing n with
  | nil => exact Nat.le_refl n
  | cons c digits ih =>
    rw [Nat.ofDigitChars_cons]
    exact Nat.le_trans (by omega) (ih _)

theorem readDigits_eq_ok_iff {r : IntegerRange} (hlowest : r.lowest ≤ 0) {cs : List Char} {n : Nat}
    {m : Int} (hn : n ≤ r.highest) :
    readDigits r false n cs = .ok m ↔
      (∀ c ∈ cs, c.isDigit) ∧ m = Nat.ofDigitChars 10 cs n ∧ m ≤ r.highest := by
  induction cs generalizing n with
  | nil =>
    simp only [readDigits, Except.ok.injEq, Nat.ofDigitChars_nil, List.not_mem_nil, false_imp_iff,
      implies_true, true_and]
    constructor
    · rintro rfl
      exact ⟨rfl, hn⟩
    · rintro ⟨rfl, -⟩
      rfl
  | cons c cs ih =>
    by_cases hdigit : c.isDigit
    · have hvalue : ((n : Int) * 10 + (c.toNat - '0'.toNat : Nat)) =
          ((10 * n + (c.toNat - '0'.toNat) : Nat) : Int) := by push_cast; omega
      rw [readDigits, digit?, if_pos hdigit]
      simp only [Bool.false_eq_true, if_false, hvalue, Nat.ofDigitChars_cons, List.forall_mem_cons,
        hdigit, true_and]
      generalize 10 * n + (c.toNat - '0'.toNat) = next
      split
      · next hlarge =>
        -- What comes later does not bring the value back into the range.
        have hgrows := le_ofDigitChars cs next
        simp only [false_iff, not_and, reduceCtorEq]
        rintro - rfl
        omega
      · next hfits =>
        rw [if_neg (by omega)]
        exact ih (by omega)
    · rw [readDigits, digit?, if_neg hdigit]
      simp [hdigit]

/-- Digits are read as they are, with or without a plus sign. -/
theorem readInteger_of_digits (r : IntegerRange) {s : String} {digits : List Char}
    (hne : digits ≠ []) (hdigits : ∀ c ∈ digits, c.isDigit)
    (hs : s.toList = digits ∨ s.toList = '+' :: digits) :
    readInteger r s = readDigits r false 0 digits := by
  obtain ⟨c, cs, rfl⟩ := List.exists_cons_of_ne_nil hne
  have hc := hdigits c List.mem_cons_self
  have hplus : c ≠ '+' := by rintro rfl; exact absurd hc (by decide)
  have hminus : c ≠ '-' := by rintro rfl; exact absurd hc (by decide)
  obtain hs | hs := hs <;> simp [readInteger, hs, hplus, hminus]

/-- Where no minus sign is admitted, nothing but digits and one plus sign is ever read. -/
theorem exists_digits_of_readInteger {r : IntegerRange} (hr : r.admitsMinus = false) {s : String}
    {m : Int} (h : readInteger r s = .ok m) :
    ∃ digits, digits ≠ [] ∧ (s.toList = digits ∨ s.toList = '+' :: digits) ∧
      readDigits r false 0 digits = .ok m := by
  unfold readInteger at h
  split at h
  · cases h
  · cases h
  · cases h
  · next cs hne hs => exact ⟨cs, hne, .inr hs, h⟩
  · simp [hr] at h
  · next hempty _ _ _ _ => exact ⟨s.toList, hempty, .inl rfl, h⟩

theorem readInteger_unsigned_eq_ok_iff {bits : Nat} {s : String} {m : Int} :
    readInteger (.unsigned bits) s = .ok m ↔
      ∃ n : Nat, m = n ∧ IsNumeral s n ∧ n < Nat.pow 2 bits := by
  have hlowest : (IntegerRange.unsigned bits).lowest ≤ 0 := Int.le_refl 0
  have hhighest : (IntegerRange.unsigned bits).highest = ((Nat.pow 2 bits : Nat) : Int) - 1 := rfl
  have hzero : ((0 : Nat) : Int) ≤ (IntegerRange.unsigned bits).highest := by
    have hpos : 0 < Nat.pow 2 bits := Nat.two_pow_pos bits
    rw [hhighest]
    omega
  constructor
  · intro h
    obtain ⟨digits, hne, hs, hread⟩ := exists_digits_of_readInteger rfl h
    obtain ⟨hdigits, rfl, hle⟩ := (readDigits_eq_ok_iff hlowest hzero).mp hread
    exact ⟨_, rfl, ⟨digits, hne, hdigits, hs, rfl⟩, by omega⟩
  · rintro ⟨n, rfl, ⟨digits, hne, hdigits, hs, rfl⟩, hlt⟩
    rw [readInteger_of_digits _ hne hdigits hs]
    exact (readDigits_eq_ok_iff hlowest hzero).mpr ⟨hdigits, rfl, by omega⟩

end BuildServer.Text
