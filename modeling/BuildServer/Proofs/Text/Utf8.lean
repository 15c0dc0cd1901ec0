-- SUMMARY: UTF-8 laws: decoding undoes encoding, and an ASCII byte ends whatever stands before it.
import BuildServer.Text.Utf8

/-!
# UTF-8 laws

Lossy decoding gives back every text that was encoded, and an ASCII byte at the
end of any bytes, damaged or not, adds exactly its own character. The second law
is what lets a reader look for a line break in bytes rather than in characters.
-/

namespace BuildServer.Text

namespace Utf8

/-! ## ASCII bytes -/

/-- No ASCII byte is awaited. -/
def Progress.Multibyte (p : Progress) : Prop := ∀ r ∈ p.awaited, 0x80 ≤ r.first

theorem multibyte_fresh : Progress.fresh.Multibyte := by
  intro r hr
  cases hr

theorem multibyte_opening {b : UInt8} {value : Nat} {awaited : List ByteRange}
    (h : opening? b = some (value, awaited)) : Progress.Multibyte ⟨value, awaited⟩ := by
  intro r hr
  unfold opening? at h
  repeat' split at h
  all_goals simp only [Option.some.injEq, Prod.mk.injEq, reduceCtorEq] at h
  all_goals
    obtain ⟨-, rfl⟩ := h
    simp only [List.mem_cons, List.not_mem_nil, or_false] at hr
    rcases hr with rfl | rfl | rfl <;> decide

theorem multibyte_begin (b : UInt8) : (begin b).2.Multibyte := by
  unfold begin
  split
  · exact multibyte_fresh
  · split
    · next h => exact multibyte_opening h
    · exact multibyte_fresh

theorem multibyte_step {p : Progress} (hp : p.Multibyte) (b : UInt8) :
    (step p b).2.Multibyte := by
  unfold step
  split
  · exact multibyte_begin b
  · next range later hawaited =>
    have hlater : ∀ r ∈ later, 0x80 ≤ r.first := fun r hr => hp r (by simp [hawaited, hr])
    split
    · dsimp only
      split
      · exact multibyte_fresh
      · exact hlater
    · exact multibyte_begin b

theorem begin_ascii {b : UInt8} (hb : b < 0x80) :
    begin b = ([some (Char.ofNat b.toNat)], .fresh) := by
  simp [begin, hb]

/-- An ASCII byte is never part of a longer character. -/
theorem not_contains_ascii {r : ByteRange} {b : UInt8} (hr : 0x80 ≤ r.first) (hb : b < 0x80) :
    r.contains b = false := by
  have : ¬ r.first ≤ b := fun h => absurd (UInt8.le_trans hr h) (UInt8.not_le.mpr hb)
  simp [ByteRange.contains, this]

theorem decodeFrom_append_ascii {b : UInt8} (hb : b < 0x80) (bytes : List UInt8) {p : Progress}
    (hp : p.Multibyte) :
    decodeFrom p (bytes ++ [b]) = decodeFrom p bytes ++ [some (Char.ofNat b.toNat)] := by
  induction bytes generalizing p with
  | nil =>
    obtain ⟨value, awaited⟩ := p
    cases awaited with
    | nil => simp [decodeFrom, step, begin_ascii hb, Progress.fresh]
    | cons range later =>
      have hnot := not_contains_ascii (hp range (by simp)) hb
      simp [decodeFrom, step, hnot, begin_ascii hb, Progress.fresh]
  | cons x bytes ih =>
    simp only [List.cons_append, decodeFrom]
    rw [ih (multibyte_step hp x), List.append_assoc]

/-! ## Encoded characters -/

/-- The range of the second byte of a three-byte character. -/
def secondOfThree (n : Nat) : ByteRange :=
  if n = 0 then ⟨0xA0, 0xBF⟩ else if n = 0xD then ⟨0x80, 0x9F⟩ else follow

/-- The range of the second byte of a four-byte character. -/
def secondOfFour (n : Nat) : ByteRange :=
  if n = 0 then ⟨0x90, 0xBF⟩ else if n = 4 then ⟨0x80, 0x8F⟩ else follow

theorem opening_two : ∀ n < 32, 2 ≤ n → opening? (UInt8.ofNat (n + 0xC0)) = some (n, [follow]) := by
  decide

theorem opening_three :
    ∀ n < 16, opening? (UInt8.ofNat (n + 0xE0)) = some (n, [secondOfThree n, follow]) := by
  decide

theorem opening_four :
    ∀ n < 5, opening? (UInt8.ofNat (n + 0xF0)) = some (n, [secondOfFour n, follow, follow]) := by
  decide

theorem toNat_ofNat_of_lt {n : Nat} (h : n < 256) : (UInt8.ofNat n).toNat = n := by
  simp [Nat.mod_eq_of_lt h]

theorem contains_ofNat {r : ByteRange} {n : Nat} (h : n < 256) (hfirst : r.first.toNat ≤ n)
    (hlast : n ≤ r.last.toNat) : r.contains (UInt8.ofNat n) = true := by
  simp [ByteRange.contains, UInt8.le_iff_toNat_le, Nat.mod_eq_of_lt h, hfirst, hlast]

theorem follow_contains {n : Nat} (h : n < 64) : follow.contains (UInt8.ofNat (n + 0x80)) = true :=
  contains_ofNat (by omega) (by simp [follow]) (by simp [follow]; omega)

theorem decodeFrom_opening {n : Nat} {value : Nat} {awaited : List ByteRange} (hn : 0x80 ≤ n)
    (hn' : n < 256) (h : opening? (UInt8.ofNat n) = some (value, awaited)) (bytes : List UInt8) :
    decodeFrom .fresh (UInt8.ofNat n :: bytes) = decodeFrom ⟨value, awaited⟩ bytes := by
  have hnot : ¬ UInt8.ofNat n < 0x80 := by
    simp [UInt8.lt_iff_toNat_lt, Nat.mod_eq_of_lt hn', hn]
  simp [decodeFrom, step, Progress.fresh, begin, hnot, h]

/-- One more byte of a character of which others are still awaited. -/
theorem decodeFrom_between {value : Nat} {range next : ByteRange} {later : List ByteRange}
    {b : UInt8} (h : range.contains b = true) (bytes : List UInt8) :
    decodeFrom ⟨value, range :: next :: later⟩ (b :: bytes) =
      decodeFrom ⟨value * 64 + (b.toNat - 0x80), next :: later⟩ bytes := by
  simp [decodeFrom, step, h]

/-- The last byte of a character. -/
theorem decodeFrom_last {value : Nat} {range : ByteRange} {b : UInt8}
    (h : range.contains b = true) (bytes : List UInt8) :
    decodeFrom ⟨value, [range]⟩ (b :: bytes) =
      some (Char.ofNat (value * 64 + (b.toNat - 0x80))) :: decodeFrom .fresh bytes := by
  simp [decodeFrom, step, h]

theorem decodeFrom_two {v : Nat} (h : 0x80 ≤ v) (h' : v ≤ 0x7ff) (bytes : List UInt8) :
    decodeFrom .fresh (UInt8.ofNat (v / 64 % 32 + 0xC0) :: UInt8.ofNat (v % 64 + 0x80) :: bytes) =
      some (Char.ofNat v) :: decodeFrom .fresh bytes := by
  rw [decodeFrom_opening (by omega) (by omega) (opening_two _ (by omega) (by omega)),
    decodeFrom_last (follow_contains (by omega)), toNat_ofNat_of_lt (by omega),
    show v / 64 % 32 * 64 + (v % 64 + 0x80 - 0x80) = v by omega]

theorem decodeFrom_three {v : Nat} (h : 0x800 ≤ v) (h' : v ≤ 0xffff)
    (hvalid : v < 0xD800 ∨ 0xDFFF < v) (bytes : List UInt8) :
    decodeFrom .fresh (UInt8.ofNat (v / 4096 % 16 + 0xE0) :: UInt8.ofNat (v / 64 % 64 + 0x80) ::
      UInt8.ofNat (v % 64 + 0x80) :: bytes) = some (Char.ofNat v) :: decodeFrom .fresh bytes := by
  -- The second byte is narrowed to exclude overlong forms and surrogates.
  have hsecond :
      (secondOfThree (v / 4096 % 16)).contains (UInt8.ofNat (v / 64 % 64 + 0x80)) = true := by
    unfold secondOfThree
    split
    · exact contains_ofNat (by omega) (by simp; omega) (by simp; omega)
    · split
      · exact contains_ofNat (by omega) (by simp) (by simp; omega)
      · exact follow_contains (by omega)
  rw [decodeFrom_opening (by omega) (by omega) (opening_three _ (by omega)),
    decodeFrom_between hsecond, decodeFrom_last (follow_contains (by omega)),
    toNat_ofNat_of_lt (by omega), toNat_ofNat_of_lt (by omega)]
  have hvalue :
      (v / 4096 % 16 * 64 + (v / 64 % 64 + 0x80 - 0x80)) * 64 + (v % 64 + 0x80 - 0x80) = v := by
    omega
  rw [hvalue]

theorem decodeFrom_four {v : Nat} (h : 0x10000 ≤ v) (h' : v < 0x110000) (bytes : List UInt8) :
    decodeFrom .fresh (UInt8.ofNat (v / 262144 % 8 + 0xF0) :: UInt8.ofNat (v / 4096 % 64 + 0x80) ::
      UInt8.ofNat (v / 64 % 64 + 0x80) :: UInt8.ofNat (v % 64 + 0x80) :: bytes) =
      some (Char.ofNat v) :: decodeFrom .fresh bytes := by
  have hsecond :
      (secondOfFour (v / 262144 % 8)).contains (UInt8.ofNat (v / 4096 % 64 + 0x80)) = true := by
    unfold secondOfFour
    split
    · exact contains_ofNat (by omega) (by simp; omega) (by simp; omega)
    · split
      · exact contains_ofNat (by omega) (by simp) (by simp; omega)
      · exact follow_contains (by omega)
  rw [decodeFrom_opening (by omega) (by omega) (opening_four _ (by omega)),
    decodeFrom_between hsecond, decodeFrom_between (follow_contains (by omega)),
    decodeFrom_last (follow_contains (by omega)), toNat_ofNat_of_lt (by omega),
    toNat_ofNat_of_lt (by omega), toNat_ofNat_of_lt (by omega)]
  have hvalue :
      ((v / 262144 % 8 * 64 + (v / 4096 % 64 + 0x80 - 0x80)) * 64 +
        (v / 64 % 64 + 0x80 - 0x80)) * 64 + (v % 64 + 0x80 - 0x80) = v := by
    omega
  rw [hvalue]

theorem decodeFrom_utf8EncodeChar (c : Char) (bytes : List UInt8) :
    decodeFrom .fresh (String.utf8EncodeChar c ++ bytes) = some c :: decodeFrom .fresh bytes := by
  have hvalid : c.val.toNat < 0xD800 ∨ 0xDFFF < c.val.toNat ∧ c.val.toNat < 0x110000 := c.valid
  have hc : Char.ofNat c.val.toNat = c := Char.ofNat_toNat c
  unfold String.utf8EncodeChar
  generalize c.val.toNat = v at hvalid hc
  subst hc
  dsimp only
  split
  · next h =>
    have hbyte : UInt8.ofNat v < 0x80 := by
      simp [UInt8.lt_iff_toNat_lt]
      omega
    have hmod : v % 256 = v := Nat.mod_eq_of_lt (by omega)
    simp [decodeFrom, step, Progress.fresh, begin_ascii hbyte, hmod]
  split
  · exact decodeFrom_two (by omega) (by omega) bytes
  split
  · exact decodeFrom_three (by omega) (by omega) (by omega) bytes
  · exact decodeFrom_four (by omega) (by omega) bytes

/-- An ASCII byte occurs in the encoding of its own character only. -/
theorem toNat_eq_of_mem_utf8EncodeChar {c : Char} {b : UInt8} (hb : b ∈ String.utf8EncodeChar c)
    (hascii : b.toNat < 0x80) : c.toNat = b.toNat := by
  unfold String.utf8EncodeChar at hb
  change c.val.toNat = b.toNat
  generalize c.val.toNat = v at hb
  dsimp only at hb
  split at hb
  · simp only [List.mem_singleton] at hb
    rw [hb, toNat_ofNat_of_lt (by omega)]
  -- Every byte of a longer encoding is too large.
  repeat' split at hb
  all_goals
    simp only [List.mem_cons, List.not_mem_nil, or_false] at hb
    rcases hb with rfl | rfl | rfl | rfl <;> simp only [UInt8.toNat_ofNat'] at hascii <;> omega

end Utf8

open Utf8

theorem utf8Encode_append (s t : String) : utf8Encode (s ++ t) = utf8Encode s ++ utf8Encode t := by
  simp [utf8Encode]

theorem utf8Characters_utf8Encode (s : String) :
    utf8Characters (utf8Encode s) = s.toList.map some := by
  unfold utf8Characters utf8Encode
  induction s.toList with
  | nil => rfl
  | cons c cs ih => rw [List.flatMap_cons, decodeFrom_utf8EncodeChar, ih, List.map_cons]

/-- Lossy decoding gives back what was encoded. -/
theorem utf8DecodeLossy_utf8Encode (s : String) : utf8DecodeLossy (utf8Encode s) = s := by
  rw [utf8DecodeLossy, utf8Characters_utf8Encode, List.map_map]
  simp [Function.comp_def]

/-- Decoding gives back what was encoded. -/
theorem utf8Decode?_utf8Encode (s : String) : utf8Decode? (utf8Encode s) = some s := by
  have hmapM : (s.toList.map some).mapM id = some s.toList := by
    rw [List.mapM_map, Function.id_comp]
    simpa using List.mapM_pure (m := Option) (l := s.toList) (f := id)
  rw [utf8Decode?, utf8Characters_utf8Encode, hmapM, Option.map_some, String.ofList_toList]

/-- An ASCII byte adds its own character, whatever stands before it. -/
theorem utf8DecodeLossy_append_ascii (bytes : List UInt8) {b : UInt8} (hb : b < 0x80) :
    (utf8DecodeLossy (bytes ++ [b])).toList =
      (utf8DecodeLossy bytes).toList ++ [Char.ofNat b.toNat] := by
  simp [utf8DecodeLossy, utf8Characters, decodeFrom_append_ascii hb bytes multibyte_fresh]

end BuildServer.Text
