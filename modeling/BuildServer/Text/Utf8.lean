-- SUMMARY: UTF-8: encoding, strict decoding, and decoding that replaces each damaged sequence.

/-!
# UTF-8

Decoding reads bytes one at a time and keeps the ranges that the next bytes of
an unfinished character may come from. A byte outside its range ends the
unfinished character as damaged and is then read as a first byte itself, so
each damaged sequence is as long as it can be without containing the start of
something else.
-/

namespace BuildServer.Text

/-- The bytes of a text. -/
def utf8Encode (s : String) : List UInt8 :=
  s.toList.flatMap String.utf8EncodeChar

namespace Utf8

/-- Inclusive range of bytes. -/
structure ByteRange where
  first : UInt8
  last : UInt8
  deriving DecidableEq, Repr

def ByteRange.contains (r : ByteRange) (b : UInt8) : Bool :=
  r.first ≤ b && b ≤ r.last

/-- Any continuation byte. -/
def follow : ByteRange := ⟨0x80, 0xBF⟩

/-- The value carried by the first byte of a longer character, and the ranges
    of the bytes after it. The second byte of some is narrower, which excludes
    overlong forms, surrogates and values past the last code point. -/
def opening? (b : UInt8) : Option (Nat × List ByteRange) :=
  if 0xC2 ≤ b ∧ b ≤ 0xDF then some (b.toNat - 0xC0, [follow])
  else if b = 0xE0 then some (0x0, [⟨0xA0, 0xBF⟩, follow])
  else if b = 0xED then some (0xD, [⟨0x80, 0x9F⟩, follow])
  else if 0xE1 ≤ b ∧ b ≤ 0xEF then some (b.toNat - 0xE0, [follow, follow])
  else if b = 0xF0 then some (0, [⟨0x90, 0xBF⟩, follow, follow])
  else if 0xF1 ≤ b ∧ b ≤ 0xF3 then some (b.toNat - 0xF0, [follow, follow, follow])
  else if b = 0xF4 then some (4, [⟨0x80, 0x8F⟩, follow, follow])
  else none

/-- Where decoding stands: the value gathered so far and what may come next.
    With nothing awaited, the next byte begins a character. -/
structure Progress where
  value : Nat
  awaited : List ByteRange
  deriving Repr

def Progress.fresh : Progress := ⟨0, []⟩

/-- Read `b` as the first byte of a character. -/
def begin (b : UInt8) : List (Option Char) × Progress :=
  if b < 0x80 then ([some (Char.ofNat b.toNat)], .fresh)
  else match opening? b with
    | some (value, awaited) => ([], ⟨value, awaited⟩)
    | none => ([none], .fresh)

/-- Read one byte. Finished characters are given as `some`, damaged sequences
    as `none`. -/
def step (p : Progress) (b : UInt8) : List (Option Char) × Progress :=
  match p.awaited with
  | [] => begin b
  | range :: later =>
    if range.contains b then
      let value := p.value * 64 + (b.toNat - 0x80)
      if later.isEmpty then ([some (Char.ofNat value)], .fresh) else ([], ⟨value, later⟩)
    else
      let (out, p') := begin b
      (none :: out, p')

def decodeFrom : Progress → List UInt8 → List (Option Char)
  | p, [] => if p.awaited.isEmpty then [] else [none]
  | p, b :: bs => let (out, p') := step p b; out ++ decodeFrom p' bs

end Utf8

/-- The characters of a byte sequence, with `none` for each damaged sequence. -/
def utf8Characters (bytes : List UInt8) : List (Option Char) :=
  Utf8.decodeFrom .fresh bytes

/-- The text of well-formed bytes. -/
def utf8Decode? (bytes : List UInt8) : Option String :=
  ((utf8Characters bytes).mapM id).map String.ofList

/-- The text of any bytes, with U+FFFD for each damaged sequence. -/
def utf8DecodeLossy (bytes : List UInt8) : String :=
  String.ofList ((utf8Characters bytes).map fun c => c.getD '\uFFFD')

end BuildServer.Text
