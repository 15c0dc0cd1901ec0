-- SUMMARY: The reader hears exactly what its stream brings, however the bytes are divided and whenever it is woken.
import BuildServer.Proofs.Control.Arrivals

/-!
# Reading

A reader at work still has some pieces of the stream ahead of it: those of the
bytes that it holds and of the bytes to be delivered. A turn ends the reading or
leaves what is ahead as it was, less what it has heard. So a whole run hears
exactly what the stream brings, and division of the stream and wake-ups do not
matter.
-/

namespace BuildServer.Control

/-! ## Gathering -/

/-- Turns that the deliveries can take. -/
def load (deliveries : List Delivery) : Nat := deliveries.foldr (·.weight + ·) 0

@[simp] theorem load_nil : load [] = 0 := rfl

@[simp] theorem load_bytes (arrived : List UInt8) (later : List Delivery) :
    load (.bytes arrived :: later) = arrived.length + 1 + load later := rfl

@[simp] theorem load_wake (later : List Delivery) : load (.wake :: later) = 1 + load later := rfl

theorem LineReader.taken_prefix (n : Nat) (bytes : List UInt8) :
    LineReader.taken n bytes <+: bytes := by
  fun_induction LineReader.taken n bytes with
  | case1 => exact List.nil_prefix
  | case2 => exact List.nil_prefix
  | case3 => simp
  | case4 n b bs h ih => exact List.cons_prefix_cons.mpr ⟨rfl, ih⟩

/-- A read stops after a newline, or with all that it may take, or with all
    that there is. -/
theorem LineReader.taken_cases (n : Nat) (bytes : List UInt8) :
    (∃ w, LineReader.taken n bytes = w ++ [newline] ∧ newline ∉ w ∧ w.length < n) ∨
    (newline ∉ LineReader.taken n bytes ∧ (LineReader.taken n bytes).length = n) ∨
    (newline ∉ bytes ∧ LineReader.taken n bytes = bytes ∧ bytes.length < n) := by
  fun_induction LineReader.taken n bytes with
  | case1 => exact .inr (.inl ⟨by simp, rfl⟩)
  | case2 n => exact .inr (.inr ⟨by simp, rfl, by simp⟩)
  | case3 => exact .inl ⟨[], rfl, by simp, by simp⟩
  | case4 n b bs h ih =>
    rcases ih with ⟨w, hw, hmem, hlen⟩ | ⟨hmem, hlen⟩ | ⟨hmem, hw, hlen⟩
    · refine .inl ⟨b :: w, by simp [hw], ?_, by simpa using hlen⟩
      simp [hmem, Ne.symm h]
    · refine .inr (.inl ⟨?_, by simp [hlen]⟩)
      simp [hmem, Ne.symm h]
    · refine .inr (.inr ⟨?_, by rw [hw], by simpa using hlen⟩)
      simp [hmem, Ne.symm h]

/-- All that gathering at most `n` bytes can come to: what it gives, and what
    that leaves of the stream. -/
inductive Gathered (n : Nat) (pending : List Delivery) :
    List UInt8 × Halt × List Delivery → Prop
  | line {w : List UInt8} {left : List Delivery} (hmem : newline ∉ w) (hlen : w.length < n)
      (hstream : streamOf pending = w ++ newline :: streamOf left)
      (hload : load left < load pending) :
      Gathered n pending (w ++ [newline], .enough, left)
  | full {got : List UInt8} {left : List Delivery} (hmem : newline ∉ got) (hlen : got.length = n)
      (hstream : streamOf pending = got ++ streamOf left) (hload : load left < load pending) :
      Gathered n pending (got, .enough, left)
  | woken {got : List UInt8} {later : List Delivery} (hmem : newline ∉ got) (hlen : got.length < n)
      (hstream : streamOf pending = got ++ streamOf later) (hload : load later < load pending) :
      Gathered n pending (got, .waiting, .wake :: later)
  | drained {got : List UInt8} (hmem : newline ∉ got) (hlen : got.length < n)
      (hstream : streamOf pending = got) (hload : got ≠ [] → 0 < load pending) :
      Gathered n pending (got, .waiting, [])

/-- What was gathered after a delivery without a newline. -/
theorem Gathered.prepend {n m : Nat} {w got : List UInt8} {later left : List Delivery} {halt : Halt}
    (h : Gathered m later (got, halt, left)) (hw : newline ∉ w) (hn : w.length + m = n) :
    Gathered n (.bytes w :: later) (w ++ got, halt, left) := by
  have hload := load_bytes w later
  cases h with
  | @line w' _ hmem hlen hstream hload' =>
    rw [← List.append_assoc]
    refine .line (by simp [hw, hmem]) (by simp; omega) ?_ (by omega)
    rw [streamOf_bytes, hstream, List.append_assoc]
  | full hmem hlen hstream hload' =>
    refine .full (by simp [hw, hmem]) (by simp; omega) ?_ (by omega)
    rw [streamOf_bytes, hstream, List.append_assoc]
  | woken hmem hlen hstream hload' =>
    refine .woken (by simp [hw, hmem]) (by simp; omega) ?_ (by omega)
    rw [streamOf_bytes, hstream, List.append_assoc]
  | drained hmem hlen hstream hload' =>
    refine .drained (by simp [hw, hmem]) (by simp; omega) ?_ (by omega)
    rw [streamOf_bytes, hstream]

/-- What a read left of the bytes that had arrived is delivered again. -/
theorem streamOf_leftover (rest : List UInt8) (later : List Delivery) :
    streamOf (if rest.isEmpty then later else .bytes rest :: later) = rest ++ streamOf later := by
  cases rest <;> rfl

theorem load_leftover_le (rest : List UInt8) (later : List Delivery) :
    load (if rest.isEmpty then later else .bytes rest :: later) ≤ rest.length + 1 + load later := by
  cases rest with
  | nil => simp
  | cons b rest => exact Nat.le_refl _

theorem gathered {n : Nat} (hn : 0 < n) (pending : List Delivery) :
    Gathered n pending (gather n pending) := by
  fun_induction gather n pending with
  | case1 => exact absurd hn (by simp)
  | case2 n => exact .drained (by simp) (by simp) rfl (by simp)
  | case3 n later => exact .woken (by simp) (by simp) rfl (by simp)
  | case4 n arrived later h ih =>
    obtain rfl := List.isEmpty_iff.mp h
    exact (ih (by omega)).prepend (w := []) (by simp) (by simp)
  | case5 n arrived later h got rest hstop =>
    have hsplit : arrived = got ++ rest :=
      (List.prefix_iff_eq_append.mp (LineReader.taken_prefix _ arrived)).symm
    have hlength : arrived.length = got.length + rest.length := by
      rw [hsplit, List.length_append]
    have hload := load_leftover_le rest later
    rcases LineReader.taken_cases (n + 1) arrived with
      ⟨w, hw, hmem, hlen⟩ | ⟨hmem, hlen⟩ | ⟨hmem, hw, hlen⟩
    · have hgot : got = w ++ [newline] := hw
      rw [hgot] at hsplit hlength ⊢
      refine .line hmem hlen ?_ ?_
      · rw [streamOf_leftover, streamOf_bytes, hsplit]
        simp
      · rw [load_bytes]
        simp at hlength
        omega
    · have hlen' : got.length = n + 1 := hlen
      refine .full hmem hlen ?_ ?_
      · rw [streamOf_leftover, streamOf_bytes, hsplit, List.append_assoc]
      · rw [load_bytes]
        omega
    · -- Everything was taken, and neither a newline nor the bound stopped the read.
      have hgot : got = arrived := hw
      rcases hstop with hlast | hfull
      · rw [hgot] at hlast
        exact absurd (List.mem_of_getLast? hlast) hmem
      · rw [hgot] at hfull
        omega
  | case6 n arrived later h got hstop more halt left hgather ih =>
    rw [not_or] at hstop
    rcases LineReader.taken_cases (n + 1) arrived with
      ⟨w, hw, hmem, hlen⟩ | ⟨hmem, hlen⟩ | ⟨hmem, hw, hlen⟩
    · have hgot : got = w ++ [newline] := hw
      exact absurd (by rw [hgot]; simp) hstop.1
    · exact absurd hlen hstop.2
    · have hgot : got = arrived := hw
      rw [hgather, hgot] at ih
      rw [hgot]
      exact (ih (by omega)).prepend hmem (by omega)

/-! ## What a reader has ahead of it -/

namespace LineReader

/-- What holds of a reader between two turns. -/
structure Sound (r : LineReader) : Prop where
  not_mem : newline ∉ r.held
  length_le : r.held.length ≤ lineLimit

theorem sound_fresh : fresh.Sound := ⟨by simp [fresh], by simp [fresh]⟩

theorem sound_skipping : Sound ⟨[], true⟩ := ⟨by simp, by simp⟩

theorem budget_pos {r : LineReader} (h : r.Sound) : 0 < r.budget := by
  have := h.length_le
  unfold budget
  omega

theorem sound_append {r : LineReader} (h : r.Sound) {got : List UInt8} (hmem : newline ∉ got)
    (hlen : got.length < r.budget) : Sound { r with held := r.held ++ got } := by
  have := h.length_le
  unfold budget at hlen
  refine ⟨by simp [h.not_mem, hmem], ?_⟩
  simp only [List.length_append]
  omega

/-- The pieces that are still to be heard when these bytes are still to be
    delivered. The rest of a piece that is skipped is none of them. -/
def ahead (r : LineReader) (bytes : List UInt8) : List (List UInt8) :=
  if r.skipping then (bytes.splitOn newline).tail else (r.held ++ bytes).splitOn newline

theorem ahead_fresh (bytes : List UInt8) : fresh.ahead bytes = bytes.splitOn newline := by
  simp [ahead, fresh]

theorem ahead_append (r : LineReader) {w : List UInt8} (hw : newline ∉ w) (bytes : List UInt8) :
    r.ahead (w ++ bytes) = ahead { r with held := r.held ++ w } bytes := by
  unfold ahead
  split
  · rw [splitOn_append_of_not_mem hw, List.tail_modifyHead]
  · rw [List.append_assoc]

theorem ahead_line_skipping {r : LineReader} (hskip : r.skipping = true) {w : List UInt8}
    (hw : newline ∉ w) (bytes : List UInt8) :
    r.ahead (w ++ newline :: bytes) = bytes.splitOn newline := by
  simp [ahead, hskip, List.splitOn_append_cons_self_of_not_mem hw]

theorem ahead_line {r : LineReader} (hskip : r.skipping = false) {w : List UInt8}
    (hw : newline ∉ r.held ++ w) (bytes : List UInt8) :
    r.ahead (w ++ newline :: bytes) = (r.held ++ w) :: bytes.splitOn newline := by
  rw [ahead, if_neg (by simp [hskip]), ← List.append_assoc,
    List.splitOn_append_cons_self_of_not_mem hw]

/-- A reader that holds too much has one more piece to mark, and skips its rest. -/
theorem ofPieces_ahead_tooLong (ending : StreamEnd) {r : LineReader} (hskip : r.skipping = false)
    (hmem : newline ∉ r.held) (hlen : lineLimit < r.held.length) (bytes : List UInt8) :
    Arrival.ofPieces ending (r.ahead bytes) =
      .tooLong :: Arrival.ofPieces ending (ahead ⟨[], true⟩ bytes) := by
  obtain ⟨piece, pieces, hpieces⟩ :=
    List.exists_cons_of_ne_nil (List.splitOn_ne_nil newline bytes)
  have hahead : r.ahead bytes = (r.held ++ piece) :: pieces := by
    rw [ahead, if_neg (by simp [hskip]), splitOn_append_of_not_mem hmem, hpieces]
    rfl
  rw [hahead, Arrival.ofPieces_cons_tooLong ending (by simp; omega), ahead, if_pos rfl, hpieces]
  rfl

/-- At the end of the stream an unfinished line is all that can be left. -/
theorem ahead_nil (r : LineReader) (h : r.Sound) :
    r.ahead [] = if r.skipping then [] else [r.held] := by
  unfold ahead
  split
  · rfl
  · rw [List.append_nil, List.splitOn_eq_singleton h.not_mem]

end LineReader

/-! ## Turns -/

namespace Session

variable {σ : Type} {l : Listener σ} {ending : StreamEnd} {s : Session σ}

/-- How the reading would end, and with what, if the listener heard everything
    that is ahead. -/
def prospect (l : Listener σ) (ending : StreamEnd) (s : Session σ) : ReaderExit × σ :=
  l.attend ending (Arrival.ofPieces ending (s.reader.ahead (streamOf s.pending))) s.listening

/-- A session that goes on keeps its prospect, and one that has ended has met it. -/
def Meets (l : Listener σ) (ending : StreamEnd) (s : Session σ) (goal : ReaderExit × σ) : Prop :=
  match s.exit with
  | none => s.reader.Sound ∧ s.prospect l ending = goal
  | some e => goal = (e, s.listening)

/-- The session with what a turn has gathered. -/
def gain (s : Session σ) (got : List UInt8) (left : List Delivery) : Session σ :=
  { s with reader := { s.reader with held := s.reader.held ++ got }, pending := left }

@[simp] theorem gain_held (s : Session σ) (got : List UInt8) (left : List Delivery) :
    (s.gain got left).reader.held = s.reader.held ++ got := rfl

@[simp] theorem gain_skipping (s : Session σ) (got : List UInt8) (left : List Delivery) :
    (s.gain got left).reader.skipping = s.reader.skipping := rfl

@[simp] theorem gain_listening (s : Session σ) (got : List UInt8) (left : List Delivery) :
    (s.gain got left).listening = s.listening := rfl

@[simp] theorem gain_pending (s : Session σ) (got : List UInt8) (left : List Delivery) :
    (s.gain got left).pending = left := rfl

@[simp] theorem gain_exit (s : Session σ) (got : List UInt8) (left : List Delivery) :
    (s.gain got left).exit = s.exit := rfl

/-- Bytes without a newline stay ahead when they are gathered. -/
theorem prospect_gain {got : List UInt8} {left : List Delivery} (hmem : newline ∉ got)
    (hstream : streamOf s.pending = got ++ streamOf left) :
    (s.gain got left).prospect l ending = s.prospect l ending := by
  rw [prospect, prospect, hstream, LineReader.ahead_append _ hmem]
  rfl

theorem turn_enough {got : List UInt8} {left : List Delivery} (hexit : s.exit = none)
    (hg : gather s.reader.budget s.pending = (got, .enough, left)) :
    s.turn l ending = (s.gain got left).examine l := by
  simp [turn, hexit, hg, gain]

theorem turn_woken {got : List UInt8} {later : List Delivery} (hexit : s.exit = none)
    (hg : gather s.reader.budget s.pending = (got, .waiting, .wake :: later)) :
    s.turn l ending = s.gain got later := by
  simp [turn, hexit, hg, gain]

theorem turn_drained {got : List UInt8} (hexit : s.exit = none)
    (hg : gather s.reader.budget s.pending = (got, .waiting, [])) :
    s.turn l ending = (s.gain got []).conclude l ending got := by
  simp [turn, hexit, hg, gain]

theorem deliver_append_newline (l : Listener σ) (piece : List UInt8) (x : σ) :
    deliver l (piece ++ [newline]) x = deliver l piece x := by
  rw [deliver, lineText_append_newline, deliver]

theorem examine_line_skipping {piece : List UInt8} (hheld : s.reader.held = piece ++ [newline])
    (hskip : s.reader.skipping = true) : s.examine l = { s with reader := .fresh } := by
  simp [examine, release, hheld, hskip]

theorem examine_line {piece : List UInt8} (hheld : s.reader.held = piece ++ [newline])
    (hskip : s.reader.skipping = false) :
    s.examine l =
      match deliver l piece s.listening with
      | (.done, x) => { s with reader := .fresh, listening := x, exit := some .handler }
      | (.more, x) => { s with reader := .fresh, listening := x } := by
  simp only [examine, release, hheld, hskip, List.getLast?_concat, deliver_append_newline]
  rcases deliver l piece s.listening with ⟨_ | _, x⟩ <;> rfl

theorem examine_tooLong (hmem : newline ∉ s.reader.held) (hlen : lineLimit < s.reader.held.length) :
    s.examine l =
      { s with
        reader := ⟨[], true⟩
        listening :=
          if s.reader.skipping then s.listening else l.notice .lineTooLong s.listening } := by
  have hlast : s.reader.held.getLast? ≠ some newline := fun h =>
    hmem (List.mem_of_getLast? h)
  simp [examine, hlast, hlen]

/-- A turn that finds a newline hears the line, if none of it was skipped. -/
theorem turn_line_meets {w : List UInt8} {left : List Delivery} (hexit : s.exit = none)
    (hs : s.reader.Sound) (hmem : newline ∉ w) (hlen : w.length < s.reader.budget)
    (hstream : streamOf s.pending = w ++ newline :: streamOf left)
    (hg : gather s.reader.budget s.pending = (w ++ [newline], .enough, left)) :
    (s.turn l ending).Meets l ending (s.prospect l ending) := by
  have hheld : (s.gain (w ++ [newline]) left).reader.held = (s.reader.held ++ w) ++ [newline] := by
    simp
  rw [turn_enough hexit hg]
  cases hskip : s.reader.skipping with
  | true =>
    rw [examine_line_skipping hheld hskip]
    simp only [Meets, gain_exit, hexit, prospect, hstream, LineReader.ahead_fresh,
      LineReader.ahead_line_skipping hskip hmem]
    exact ⟨LineReader.sound_fresh, rfl⟩
  | false =>
    have hshort : (s.reader.held ++ w).length ≤ lineLimit :=
      (LineReader.sound_append hs hmem hlen).length_le
    have hgoal : s.prospect l ending =
        l.attend ending ((Arrival.ofPiece? (s.reader.held ++ w)).toList ++
          Arrival.ofPieces ending ((streamOf left).splitOn newline)) s.listening := by
      rw [prospect, hstream, LineReader.ahead_line hskip (by simp [hs.not_mem, hmem]),
        Arrival.ofPieces_cons ending _ (List.splitOn_ne_nil newline _)]
    rw [examine_line hheld hskip, hgoal, Listener.attend_append,
      ← Listener.deliver_eq_hearAll l hshort, gain_listening]
    rcases deliver l (s.reader.held ++ w) s.listening with ⟨_ | _, x⟩
    · simp only [Meets, gain_exit, hexit, prospect, LineReader.ahead_fresh]
      exact ⟨LineReader.sound_fresh, rfl⟩
    · rfl

/-- A turn that takes one byte too many marks the line, unless it is skipped already. -/
theorem turn_full_meets {got : List UInt8} {left : List Delivery} (hexit : s.exit = none)
    (hs : s.reader.Sound) (hmem : newline ∉ got) (hlen : got.length = s.reader.budget)
    (hstream : streamOf s.pending = got ++ streamOf left)
    (hg : gather s.reader.budget s.pending = (got, .enough, left)) :
    (s.turn l ending).Meets l ending (s.prospect l ending) := by
  have hmem' : newline ∉ (s.gain got left).reader.held := by simp [hs.not_mem, hmem]
  have hlong : lineLimit < (s.gain got left).reader.held.length := by
    have := hs.length_le
    unfold LineReader.budget at hlen
    simp only [gain_held, List.length_append]
    omega
  rw [turn_enough hexit hg, examine_tooLong hmem' hlong, ← prospect_gain hmem hstream]
  simp only [Meets, gain_exit, hexit]
  refine ⟨LineReader.sound_skipping, ?_⟩
  rw [prospect, prospect]
  cases hskip : (s.gain got left).reader.skipping with
  | true =>
    rw [LineReader.ahead, LineReader.ahead, if_pos rfl, if_pos hskip]
    rfl
  | false =>
    rw [LineReader.ofPieces_ahead_tooLong ending hskip hmem' hlong, Listener.attend_tooLong]
    rfl

/-- A turn that is ended by a wake-up hears nothing and loses nothing. -/
theorem turn_woken_meets {got : List UInt8} {later : List Delivery} (hexit : s.exit = none)
    (hs : s.reader.Sound) (hmem : newline ∉ got) (hlen : got.length < s.reader.budget)
    (hstream : streamOf s.pending = got ++ streamOf later)
    (hg : gather s.reader.budget s.pending = (got, .waiting, .wake :: later)) :
    (s.turn l ending).Meets l ending (s.prospect l ending) := by
  rw [turn_woken hexit hg, ← prospect_gain hmem hstream]
  simp only [Meets, gain_exit, hexit]
  exact ⟨LineReader.sound_append hs hmem hlen, trivial⟩

/-- With nothing left to be delivered, only a closed stream brings an unfinished line. -/
theorem prospect_drained (hs : s.reader.Sound) (hpending : s.pending = [])
    (hend : ending ≠ .closed) :
    s.prospect l ending = (ending.exit, l.finish ending s.listening) := by
  have hnone : Arrival.ofPieces ending (s.reader.ahead []) = [] := by
    rw [LineReader.ahead_nil _ hs]
    split
    · rfl
    · simp [Arrival.ofPieces, Arrival.ofTail?_unfinished hend hs.length_le]
  rw [prospect, hpending, streamOf_nil, hnone]
  rfl

/-- A closed stream brings the unfinished line that the reader holds. -/
theorem close_meets (hs : s.reader.Sound) (hpending : s.pending = []) :
    (s.close l).Meets l .closed (s.prospect l .closed) := by
  rw [prospect, hpending, streamOf_nil, LineReader.ahead_nil _ hs]
  by_cases hempty : s.reader.held = []
  · have hblank : Arrival.ofPiece? [] = none := rfl
    have hnone :
        Arrival.ofPieces .closed (if s.reader.skipping then [] else [s.reader.held]) = [] := by
      rw [hempty]
      split <;> simp [Arrival.ofPieces, Arrival.ofTail?, hblank]
    rw [hnone, Listener.attend_nil]
    simp [close, hempty, leave, Meets, Listener.finish, StreamEnd.exit, StreamEnd.notice?]
  cases hskip : s.reader.skipping with
  | true =>
    simp [close, release, hempty, hskip, leave, Meets, Arrival.ofPieces, Listener.finish,
      StreamEnd.exit, StreamEnd.notice?]
  | false =>
    have hdeliver := Listener.deliver_eq_hearAll l hs.length_le s.listening
    rw [if_neg (by simp), Arrival.ofPieces, Arrival.ofTail?, Listener.attend, ← hdeliver]
    simp only [close, release, hempty, hskip, List.isEmpty_iff, if_false, Bool.false_eq_true]
    rcases deliver l s.reader.held s.listening with ⟨_ | _, x⟩ <;> rfl

theorem turn_drained_meets {got : List UInt8} (hexit : s.exit = none)
    (hs : s.reader.Sound) (hmem : newline ∉ got) (hlen : got.length < s.reader.budget)
    (hstream : streamOf s.pending = got)
    (hg : gather s.reader.budget s.pending = (got, .waiting, [])) :
    (s.turn l ending).Meets l ending (s.prospect l ending) := by
  have hgain : (s.gain got []).reader.Sound := LineReader.sound_append hs hmem hlen
  have hall : streamOf s.pending = got ++ streamOf [] := by simp [hstream]
  rw [turn_drained hexit hg, ← prospect_gain hmem hall]
  cases ending with
  | closed =>
    rw [conclude, afterDry]
    split
    · exact close_meets hgain rfl
    · simp only [Meets, gain_exit, hexit]
      exact ⟨hgain, trivial⟩
  | failed reason => exact prospect_drained hgain rfl (by simp)
  | shutdown => exact prospect_drained hgain rfl (by simp)
  | abandoned => exact prospect_drained hgain rfl (by simp)

theorem turn_meets (hexit : s.exit = none) (hs : s.reader.Sound) :
    (s.turn l ending).Meets l ending (s.prospect l ending) := by
  have hgathered := gathered (LineReader.budget_pos hs) s.pending
  generalize hg : gather s.reader.budget s.pending = g at hgathered
  cases hgathered with
  | line hmem hlen hstream => exact turn_line_meets hexit hs hmem hlen hstream hg
  | full hmem hlen hstream => exact turn_full_meets hexit hs hmem hlen hstream hg
  | woken hmem hlen hstream => exact turn_woken_meets hexit hs hmem hlen hstream hg
  | drained hmem hlen hstream => exact turn_drained_meets hexit hs hmem hlen hstream hg

/-! ## Progress -/

theorem release_pending (l : Listener σ) (s : Session σ) : (s.release l).2.pending = s.pending := by
  unfold release
  split <;> rfl

theorem examine_pending (l : Listener σ) (s : Session σ) : (s.examine l).pending = s.pending := by
  have h := release_pending l s
  unfold examine
  split
  · rcases hr : s.release l with ⟨_ | _, s'⟩ <;> simpa [hr, leave] using h
  · split <;> rfl

theorem close_exit (l : Listener σ) (s : Session σ) : (s.close l).exit ≠ none := by
  unfold close
  dsimp only
  split <;> simp [leave]

/-- Every turn that does not end the reading uses up deliveries. -/
theorem load_turn_lt (hexit : s.exit = none) (hs : s.reader.Sound)
    (hnext : (s.turn l ending).exit = none) : load (s.turn l ending).pending < load s.pending := by
  have hgathered := gathered (LineReader.budget_pos hs) s.pending
  generalize hg : gather s.reader.budget s.pending = g at hgathered
  cases hgathered with
  | line _ _ _ hload => rwa [turn_enough hexit hg, examine_pending]
  | full _ _ _ hload => rwa [turn_enough hexit hg, examine_pending]
  | woken _ _ _ hload => rwa [turn_woken hexit hg]
  | @drained got _ _ _ hload =>
    rw [turn_drained hexit hg] at hnext ⊢
    cases ending with
    | closed =>
      rw [conclude, afterDry] at hnext ⊢
      split at hnext
      · exact absurd hnext (close_exit l _)
      · next hgot =>
        rw [if_neg hgot]
        exact hload (by simpa using hgot)
    | failed reason => simp [conclude, leave] at hnext
    | shutdown => simp [conclude, leave] at hnext
    | abandoned => simp [conclude, leave] at hnext

theorem turns_of_exit {e : ReaderExit} (h : s.exit = some e) (n : Nat) :
    s.turns l ending n = s := by
  cases n with
  | zero => rfl
  | succ n => simp [turns, h]

/-- Enough turns meet the prospect. -/
theorem turns_eq_prospect {n : Nat} (hexit : s.exit = none) (hs : s.reader.Sound)
    (hn : load s.pending < n) :
    (s.turns l ending n).exit = some (s.prospect l ending).1 ∧
      (s.turns l ending n).listening = (s.prospect l ending).2 := by
  induction n generalizing s with
  | zero => exact absurd hn (Nat.not_lt_zero _)
  | succ n ih =>
    have hmeets : (s.turn l ending).Meets l ending (s.prospect l ending) := turn_meets hexit hs
    have hload : (s.turn l ending).exit = none →
        load (s.turn l ending).pending < load s.pending := load_turn_lt hexit hs
    have hturns : s.turns l ending (n + 1) = (s.turn l ending).turns l ending n := by
      simp [turns, hexit]
    rw [hturns]
    unfold Meets at hmeets
    split at hmeets
    · next hnext =>
      rw [← hmeets.2]
      have hless := hload hnext
      exact ih hnext hmeets.1 (by omega)
    · next e hnext =>
      rw [turns_of_exit hnext, hmeets]
      exact ⟨hnext, rfl⟩

end Session

/-- A whole run hears what the stream brings, up to the arrival that is enough. -/
theorem readLines_eq_attend {σ : Type} (l : Listener σ) (deliveries : List Delivery)
    (ending : StreamEnd) (x : σ) :
    (readLines l false deliveries ending x).exit =
        some (l.attend ending (arrivals ending (streamOf deliveries)) x).1 ∧
      (readLines l false deliveries ending x).listening =
        (l.attend ending (arrivals ending (streamOf deliveries)) x).2 := by
  let s : Session σ := ⟨.fresh, x, deliveries, none⟩
  have hprospect : s.prospect l ending =
      l.attend ending (arrivals ending (streamOf deliveries)) x := by
    rw [Session.prospect, LineReader.ahead_fresh, arrivals]
  rw [← hprospect]
  exact Session.turns_eq_prospect rfl LineReader.sound_fresh (Nat.lt_succ_self _)

/-- A run does not depend on what only one of two listeners can see. -/
theorem Listener.Shows.readLines {ρ σ : Type} {f : ρ → σ} {l' : Listener ρ} {l : Listener σ}
    (h : Shows f l' l) (deliveries : List Delivery) (ending : StreamEnd) (x : ρ) :
    (readLines l false deliveries ending (f x)).exit =
        (readLines l' false deliveries ending x).exit ∧
      (readLines l false deliveries ending (f x)).listening =
        f (readLines l' false deliveries ending x).listening := by
  obtain ⟨hexit, hlistening⟩ := readLines_eq_attend l deliveries ending (f x)
  obtain ⟨hexit', hlistening'⟩ := readLines_eq_attend l' deliveries ending x
  rw [hexit, hlistening, hexit', hlistening', h.attend]
  exact ⟨rfl, rfl⟩

end BuildServer.Control
