-- SUMMARY: Decimal integers of a bounded range, read digit by digit.

/-!
# Integers

A number is an optional sign and one or more ASCII digits. Reading goes from
left to right and stops at the first character that is no digit or that takes
the value out of its range, so the earlier of two faults is the one reported.
-/

namespace BuildServer.Text

/-- Why a text is no integer of its range. -/
inductive IntegerError where
  | empty
  | invalidDigit
  | tooLarge
  | tooSmall
  deriving DecidableEq, Repr

def IntegerError.message : IntegerError → String
  | .empty => "cannot parse integer from empty string"
  | .invalidDigit => "invalid digit found in string"
  | .tooLarge => "number too large to fit in target type"
  | .tooSmall => "number too small to fit in target type"

/-- Inclusive bounds of an integer type. -/
structure IntegerRange where
  lowest : Int
  highest : Int
  deriving DecidableEq, Repr

namespace IntegerRange

def unsigned (bits : Nat) : IntegerRange := ⟨0, Nat.pow 2 bits - 1⟩

def signed (bits : Nat) : IntegerRange := ⟨-Nat.pow 2 (bits - 1), Nat.pow 2 (bits - 1) - 1⟩

/-- Only a range that goes below zero admits a minus sign. -/
def admitsMinus (r : IntegerRange) : Bool := r.lowest < 0

end IntegerRange

/-- The value of an ASCII digit. -/
def digit? (c : Char) : Option Nat :=
  if c.isDigit then some (c.toNat - '0'.toNat) else none

/-- Append digits to the value `n`, upwards or, after a minus sign, downwards. -/
def readDigits (r : IntegerRange) (negative : Bool) : Int → List Char → Except IntegerError Int
  | n, [] => .ok n
  | n, c :: cs =>
    match digit? c with
    | none => .error .invalidDigit
    | some d =>
      let n' := if negative then n * 10 - d else n * 10 + d
      if r.highest < n' then .error .tooLarge
      else if n' < r.lowest then .error .tooSmall
      else readDigits r negative n' cs

def readInteger (r : IntegerRange) (s : String) : Except IntegerError Int :=
  match s.toList with
  | [] => .error .empty
  | ['+'] | ['-'] => .error .invalidDigit
  | '+' :: cs => readDigits r false 0 cs
  | '-' :: cs => if r.admitsMinus then readDigits r true 0 cs else .error .invalidDigit
  | cs => readDigits r false 0 cs

end BuildServer.Text
