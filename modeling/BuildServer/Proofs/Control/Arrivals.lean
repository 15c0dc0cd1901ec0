-- SUMMARY: What a whole stream of bytes brings to a listener: its lines, and a mark for each that is too long.
import BuildServer.Control.LineReader
import BuildServer.Proofs.Text.Utf8

/-!
# Arrivals

Here a stream is read as a whole. It is cut at every newline, and each piece
brings a line, or a mark if it is too long, or nothing if it is blank. The
unfinished piece at the end brings a line only if the stream was closed. The
reader, which works in turns and holds a bounded number of bytes, is compared
with this reading.
-/

namespace BuildServer.Control

/-! ## Streams -/

/-- The bytes that a delivery adds to the stream. -/
def Delivery.content : Delivery → List UInt8
  | .bytes arrived => arrived
  | .wake => []

/-- The bytes of all deliveries, however they are divided. -/
def streamOf (deliveries : List Delivery) : List UInt8 :=
  deliveries.flatMap Delivery.content

@[simp] theorem streamOf_nil : streamOf [] = [] := rfl

@[simp] theorem streamOf_bytes (arrived : List UInt8) (later : List Delivery) :
    streamOf (.bytes arrived :: later) = arrived ++ streamOf later := rfl

@[simp] theorem streamOf_wake (later : List Delivery) :
    streamOf (.wake :: later) = streamOf later := rfl

namespace StreamEnd

/-- How the reader exits when its listener never had enough. -/
def exit : StreamEnd → ReaderExit
  | .closed => .closed
  | .failed _ => .failed
  | .shutdown => .shutdown
  | .abandoned => .shutdown

/-- The notice that tells of the end. -/
def notice? : StreamEnd → Option Notice
  | .closed => some .closed
  | .failed reason => some (.readFailed reason)
  | .shutdown => none
  | .abandoned => none

end StreamEnd

/-! ## Pieces -/

/-- What a piece of a stream brings to a listener. -/
inductive Arrival where
  | line (text : String)
  | tooLong
  deriving DecidableEq, Repr

namespace Arrival

def text? : Arrival → Option String
  | .line text => some text
  | .tooLong => none

/-- What a piece that ends in a newline brings. The newline is left out. -/
def ofPiece? (piece : List UInt8) : Option Arrival :=
  if lineLimit < piece.length then some .tooLong
  else if (lineText piece).toList.all Text.isBlank then none
  else some (.line (lineText piece))

/-- What the unfinished piece at the end of a stream brings. That it is too
    long shows before the end. -/
def ofTail? (ending : StreamEnd) (piece : List UInt8) : Option Arrival :=
  match ending with
  | .closed => ofPiece? piece
  | .failed _ | .shutdown | .abandoned =>
    if lineLimit < piece.length then some .tooLong else none

def ofPieces (ending : StreamEnd) : List (List UInt8) → List Arrival
  | [] => []
  | [tail] => (ofTail? ending tail).toList
  | piece :: next :: pieces => (ofPiece? piece).toList ++ ofPieces ending (next :: pieces)

end Arrival

/-- Everything that a stream brings, in order. -/
def arrivals (ending : StreamEnd) (bytes : List UInt8) : List Arrival :=
  Arrival.ofPieces ending (bytes.splitOn newline)

/-- The lines that a stream brings, in order. -/
def linesOf (ending : StreamEnd) (bytes : List UInt8) : List String :=
  (arrivals ending bytes).filterMap Arrival.text?

namespace Arrival

theorem ofPieces_cons (ending : StreamEnd) (piece : List UInt8) {pieces : List (List UInt8)}
    (h : pieces ≠ []) :
    ofPieces ending (piece :: pieces) = (ofPiece? piece).toList ++ ofPieces ending pieces := by
  cases pieces with
  | nil => exact absurd rfl h
  | cons next pieces => rfl

theorem ofTail?_tooLong (ending : StreamEnd) {piece : List UInt8} (h : lineLimit < piece.length) :
    ofTail? ending piece = some .tooLong := by
  cases ending <;> simp [ofTail?, ofPiece?, h]

/-- A piece that is too long is marked, whether it is finished or not. -/
theorem ofPieces_cons_tooLong (ending : StreamEnd) {piece : List UInt8}
    (h : lineLimit < piece.length) (pieces : List (List UInt8)) :
    ofPieces ending (piece :: pieces) = .tooLong :: ofPieces ending pieces := by
  cases pieces with
  | nil => simp [ofPieces, ofTail?_tooLong ending h]
  | cons next pieces => simp [ofPieces, ofPiece?, h]

/-- Unless the stream was closed, an unfinished piece that could still become a
    line brings nothing. -/
theorem ofTail?_unfinished {ending : StreamEnd} (hend : ending ≠ .closed) {piece : List UInt8}
    (h : piece.length ≤ lineLimit) : ofTail? ending piece = none := by
  cases ending <;> simp_all [ofTail?, Nat.not_lt.mpr h]

end Arrival

/-- Bytes without a newline belong to the piece that follows them. -/
theorem splitOn_append_of_not_mem {w : List UInt8} (hw : newline ∉ w) (bytes : List UInt8) :
    (w ++ bytes).splitOn newline = (bytes.splitOn newline).modifyHead (w ++ ·) := by
  induction w with
  | nil =>
    obtain ⟨piece, pieces, h⟩ := List.exists_cons_of_ne_nil (List.splitOn_ne_nil newline bytes)
    simp [h]
  | cons b w ih =>
    simp only [List.mem_cons, not_or] at hw
    rw [List.cons_append, List.splitOn_cons_eq_if_modifyHead, ih hw.2]
    obtain ⟨piece, pieces, h⟩ := List.exists_cons_of_ne_nil (List.splitOn_ne_nil newline bytes)
    simp [h, Ne.symm hw.1]

/-- The newline at the end of a line is no part of its text. -/
theorem lineText_append_newline (piece : List UInt8) :
    lineText (piece ++ [newline]) = lineText piece := by
  have hdecode := Text.utf8DecodeLossy_append_ascii piece (b := newline) (by decide)
  rw [lineText, hdecode, lineText]
  simp [Text.dropTail, newline]

/-! ## Hearing -/

namespace Listener

variable {σ : Type}

def hear (l : Listener σ) : Arrival → σ → Flow × σ
  | .line text, x => l.line text x
  | .tooLong, x => (.more, l.notice .lineTooLong x)

/-- Hear arrivals in order until one is enough. -/
def hearAll (l : Listener σ) : List Arrival → σ → Flow × σ
  | [], x => (.more, x)
  | a :: as, x =>
    match l.hear a x with
    | (.done, x) => (.done, x)
    | (.more, x) => l.hearAll as x

/-- Be told how the stream ended. -/
def finish (l : Listener σ) (ending : StreamEnd) (x : σ) : σ :=
  match ending.notice? with
  | some n => l.notice n x
  | none => x

/-- Hear arrivals and then the end, unless one of them is enough. -/
def attend (l : Listener σ) (ending : StreamEnd) (as : List Arrival) (x : σ) : ReaderExit × σ :=
  match l.hearAll as x with
  | (.done, x) => (.handler, x)
  | (.more, x) => (ending.exit, l.finish ending x)

theorem hearAll_cons_of_done {l : Listener σ} {a : Arrival} {x : σ} (h : (l.hear a x).1 = .done)
    (as : List Arrival) : l.hearAll (a :: as) x = (.done, (l.hear a x).2) := by
  rcases hear : l.hear a x with ⟨flow, y⟩
  rw [hear] at h
  subst h
  simp [hearAll, hear]

theorem hearAll_cons_of_more {l : Listener σ} {a : Arrival} {x : σ} (h : (l.hear a x).1 = .more)
    (as : List Arrival) : l.hearAll (a :: as) x = l.hearAll as (l.hear a x).2 := by
  rcases hear : l.hear a x with ⟨flow, y⟩
  rw [hear] at h
  subst h
  simp [hearAll, hear]

theorem hearAll_singleton (l : Listener σ) (a : Arrival) (x : σ) :
    l.hearAll [a] x = l.hear a x := by
  rw [hearAll]
  rcases l.hear a x with ⟨_ | _, y⟩ <;> rfl

theorem hearAll_append (l : Listener σ) (as bs : List Arrival) (x : σ) :
    l.hearAll (as ++ bs) x =
      match l.hearAll as x with
      | (.done, x) => (.done, x)
      | (.more, x) => l.hearAll bs x := by
  induction as generalizing x with
  | nil => rfl
  | cons a as ih =>
    simp only [List.cons_append, hearAll]
    rcases l.hear a x with ⟨_ | _, y⟩
    · exact ih y
    · rfl

theorem attend_append (l : Listener σ) (ending : StreamEnd) (as bs : List Arrival) (x : σ) :
    l.attend ending (as ++ bs) x =
      match l.hearAll as x with
      | (.done, x) => (.handler, x)
      | (.more, x) => l.attend ending bs x := by
  rw [attend, hearAll_append]
  rcases l.hearAll as x with ⟨_ | _, y⟩ <;> rfl

@[simp] theorem attend_nil (l : Listener σ) (ending : StreamEnd) (x : σ) :
    l.attend ending [] x = (ending.exit, l.finish ending x) := rfl

theorem attend_tooLong (l : Listener σ) (ending : StreamEnd) (as : List Arrival) (x : σ) :
    l.attend ending (.tooLong :: as) x = l.attend ending as (l.notice .lineTooLong x) := rfl

/-- Handing over a piece of permitted length is hearing what it brings. -/
theorem deliver_eq_hearAll (l : Listener σ) {piece : List UInt8} (h : piece.length ≤ lineLimit)
    (x : σ) : deliver l piece x = l.hearAll (Arrival.ofPiece? piece).toList x := by
  unfold deliver Arrival.ofPiece?
  rw [if_neg (Nat.not_lt.mpr h)]
  dsimp only
  split
  · rfl
  · rw [Option.toList_some, hearAll_singleton]
    rfl

/-- Seen through `f`, the listener `l'` is `l`. -/
structure Shows {ρ : Type} (f : ρ → σ) (l' : Listener ρ) (l : Listener σ) : Prop where
  line : ∀ text x, l.line text (f x) = ((l'.line text x).1, f (l'.line text x).2)
  notice : ∀ n x, l.notice n (f x) = f (l'.notice n x)

namespace Shows

variable {ρ : Type} {f : ρ → σ} {l' : Listener ρ} {l : Listener σ}

theorem hear (h : Shows f l' l) (a : Arrival) (x : ρ) :
    l.hear a (f x) = ((l'.hear a x).1, f (l'.hear a x).2) := by
  cases a with
  | line text => exact h.line text x
  | tooLong => exact congrArg (Prod.mk _) (h.notice _ x)

theorem hearAll (h : Shows f l' l) (as : List Arrival) (x : ρ) :
    l.hearAll as (f x) = ((l'.hearAll as x).1, f (l'.hearAll as x).2) := by
  induction as generalizing x with
  | nil => rfl
  | cons a as ih =>
    rw [Listener.hearAll, h.hear, Listener.hearAll]
    rcases l'.hear a x with ⟨_ | _, y⟩
    · exact ih y
    · rfl

theorem attend (h : Shows f l' l) (ending : StreamEnd) (as : List Arrival) (x : ρ) :
    l.attend ending as (f x) = ((l'.attend ending as x).1, f (l'.attend ending as x).2) := by
  rw [Listener.attend, h.hearAll, Listener.attend]
  rcases l'.hearAll as x with ⟨_ | _, y⟩
  · cases ending with
    | closed => exact congrArg (Prod.mk _) (h.notice _ y)
    | failed reason => exact congrArg (Prod.mk _) (h.notice _ y)
    | shutdown => rfl
    | abandoned => rfl
  · rfl

end Shows

end Listener

end BuildServer.Control
