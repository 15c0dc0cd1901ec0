-- SUMMARY: How much a reader holds, and why it never takes its own limit for the end of the stream.
import BuildServer.Proofs.Control.Reading
import Mathlib.Data.List.DropRight

/-!
# What a reader holds

What a reader holds follows from the bytes that it has read so far. It holds all that has
come since the last newline as long as this may still become a line, and else some end of
it and skips. So it holds a bounded number of bytes at all times. At the start of a turn
there is always room for one more, so that only the end of the stream can make a read come
back with nothing.
-/

namespace BuildServer.Control

/-! ## Unfinished lines -/

/-- The bytes that have come after the last newline. -/
def unfinished (bytes : List UInt8) : List UInt8 :=
  bytes.rtakeWhile (· != newline)

theorem newline_not_mem_unfinished (bytes : List UInt8) : newline ∉ unfinished bytes := by
  intro h
  simpa using List.mem_rtakeWhile_imp h

theorem unfinished_line (bytes w : List UInt8) : unfinished (bytes ++ (w ++ [newline])) = [] := by
  rw [unfinished, ← List.append_assoc]
  exact List.rtakeWhile_concat_neg _ _ _ (by simp)

/-- Bytes without a newline go on with the line. -/
theorem unfinished_append (bytes : List UInt8) {w : List UInt8} (hw : newline ∉ w) :
    unfinished (bytes ++ w) = unfinished bytes ++ w := by
  have hall : ∀ b ∈ w.reverse, (b != newline) = true := by
    intro b hb
    rw [bne_iff_ne]
    rintro rfl
    exact hw (List.mem_reverse.mp hb)
  rw [unfinished, List.rtakeWhile, List.reverse_append, List.takeWhile_append_of_pos hall]
  simp [unfinished, List.rtakeWhile]

namespace LineReader

variable {r : LineReader} {read got : List UInt8}

/-- What a reader holds, and whether it skips, when it has read these bytes. -/
structure Follows (read : List UInt8) (r : LineReader) : Prop where
  held_suffix : r.held <:+ unfinished read
  length_le : r.held.length ≤ lineLimit
  skipping_iff : r.skipping = true ↔ lineLimit < (unfinished read).length
  /-- Nothing of a line that is not skipped has been let go. -/
  held_eq : r.skipping = false → r.held = unfinished read

theorem Follows.sound (h : Follows read r) : r.Sound :=
  ⟨fun hmem => newline_not_mem_unfinished read (h.held_suffix.mem hmem), h.length_le⟩

theorem follows_fresh : Follows [] fresh :=
  ⟨by simp [fresh], by simp [fresh], by simp [fresh, unfinished], by simp [fresh, unfinished]⟩

/-- A newline finishes the line, skipped or not. -/
theorem follows_line (read w : List UInt8) : Follows (read ++ (w ++ [newline])) fresh := by
  refine ⟨?_, by simp [fresh], ?_, ?_⟩ <;> simp [fresh, unfinished_line]

/-- With one byte too many, the line is skipped. -/
theorem Follows.full (h : Follows read r) (hmem : newline ∉ got) (hlen : got.length = r.budget) :
    Follows (read ++ got) ⟨[], true⟩ := by
  have hlong : lineLimit < (unfinished (read ++ got)).length := by
    have hheld := h.held_suffix.length_le
    have hle := h.length_le
    rw [unfinished_append read hmem, List.length_append, hlen, budget]
    omega
  exact ⟨List.nil_suffix, Nat.zero_le _, iff_of_true rfl hlong, nofun⟩

theorem Follows.append (h : Follows read r) (hmem : newline ∉ got) (hlen : got.length < r.budget) :
    Follows (read ++ got) { r with held := r.held ++ got } := by
  have hle := (sound_append h.sound hmem hlen).length_le
  have heq : r.skipping = false → r.held ++ got = unfinished (read ++ got) := by
    intro hskip
    rw [unfinished_append read hmem, h.held_eq hskip]
  refine ⟨?_, hle, ?_, heq⟩
  · obtain ⟨before, hbefore⟩ := h.held_suffix
    exact ⟨before, by rw [unfinished_append read hmem, ← List.append_assoc, hbefore]⟩
  · cases hskip : r.skipping with
    | true =>
      -- What has been let go of the line is not needed: it only gets longer.
      refine iff_of_true rfl ?_
      have hlong := h.skipping_iff.mp hskip
      rw [unfinished_append read hmem, List.length_append]
      omega
    | false =>
      refine iff_of_false nofun ?_
      rw [← heq hskip]
      exact Nat.not_lt.mpr hle

end LineReader

/-! ## Turns -/

theorem Gathered.length_le {n : Nat} {pending left : List Delivery} {got : List UInt8} {halt : Halt}
    (h : Gathered n pending (got, halt, left)) : got.length ≤ n := by
  cases h with
  | line _ hlen =>
    rw [List.length_append]
    exact hlen
  | full _ hlen => exact Nat.le_of_eq hlen
  | woken _ hlen => exact Nat.le_of_lt hlen
  | drained _ hlen => exact Nat.le_of_lt hlen

/-- Nothing is gathered, and nothing is left, exactly if nothing has arrived. -/
theorem gather_eq_nothing_iff {n : Nat} (hn : 0 < n) (pending : List Delivery) :
    gather n pending = ([], .waiting, []) ↔ ∀ d ∈ pending, d = .bytes [] := by
  obtain ⟨n, rfl⟩ := Nat.exists_eq_add_of_lt hn
  rw [Nat.zero_add] at *
  induction pending with
  | nil => simp [gather]
  | cons d later ih =>
    cases d with
    | wake => simp [gather]
    | bytes arrived =>
      cases arrived with
      | nil => simpa [gather] using ih
      | cons b arrived =>
        -- A byte that has arrived is taken, since there is room for it.
        have hgot : LineReader.taken (n + 1) (b :: arrived) ≠ [] := by
          rw [LineReader.taken]
          split <;> simp
        refine iff_of_false (fun h => ?_) (by simp)
        rw [gather] at h
        simp only [List.isEmpty_cons, Bool.false_eq_true, if_false] at h
        split at h
        · exact hgot (Prod.ext_iff.mp h).1
        · exact hgot (List.append_eq_nil_iff.mp (Prod.ext_iff.mp h).1).1

namespace Session

variable {σ : Type} {l : Listener σ} {ending : StreamEnd} {s : Session σ} {read : List UInt8}

open LineReader (Follows)

theorem release_reader (l : Listener σ) (s : Session σ) : (s.release l).2.reader = .fresh := by
  unfold release
  split <;> rfl

theorem examine_line_reader {piece : List UInt8} (hheld : s.reader.held = piece ++ [newline]) :
    (s.examine l).reader = .fresh := by
  have h := release_reader l s
  unfold examine
  rw [if_pos (by simp [hheld])]
  rcases hr : s.release l with ⟨_ | _, s'⟩ <;> simpa [hr, leave] using h

theorem examine_line_exit {piece : List UInt8} (hheld : s.reader.held = piece ++ [newline])
    (hexit : s.exit = none) : (s.examine l).exit = none ∨ (s.examine l).exit = some .handler := by
  cases hskip : s.reader.skipping with
  | true => exact .inl (by rw [examine_line_skipping hheld hskip, hexit])
  | false =>
    rw [examine_line hheld hskip]
    split
    · exact .inr rfl
    · exact .inl hexit

/-- The read of a turn comes back, and has brought nothing. -/
def ReadsNothing (ending : StreamEnd) (s : Session σ) : Prop :=
  ∃ halt left, gather s.reader.budget s.pending = ([], halt, left) ∧
    (halt = .waiting → left = [] ∧ ending = .closed)

/-- What a turn can do to the reader. -/
inductive Turned (ending : StreamEnd) (s t : Session σ) : Prop where
  /-- A line has been finished, and has been enough or not. -/
  | line {w : List UInt8} (hmem : newline ∉ w)
      (hstream : streamOf s.pending = w ++ newline :: streamOf t.pending)
      (hreader : t.reader = .fresh) (hexit : t.exit = none ∨ t.exit = some .handler)
  | full {got : List UInt8} (hmem : newline ∉ got) (hlen : got.length = s.reader.budget)
      (hstream : streamOf s.pending = got ++ streamOf t.pending) (hreader : t.reader = ⟨[], true⟩)
      (hexit : t.exit = none)
  /-- The line has become longer, and there is still room. -/
  | more {got : List UInt8} (hmem : newline ∉ got) (hlen : got.length < s.reader.budget)
      (hstream : streamOf s.pending = got ++ streamOf t.pending)
      (hreader : t.reader = { s.reader with held := s.reader.held ++ got }) (hexit : t.exit = none)
  | ended {e : ReaderExit} (hexit : t.exit = some e) (hclosed : e = .closed → s.ReadsNothing ending)

theorem turned (l : Listener σ) (ending : StreamEnd) (hexit : s.exit = none) (hs : s.reader.Sound) :
    s.Turned ending (s.turn l ending) := by
  have hgathered := gathered (LineReader.budget_pos hs) s.pending
  generalize hg : gather s.reader.budget s.pending = g at hgathered
  cases hgathered with
  | @line w left hmem hlen hstream =>
    have hheld : (s.gain (w ++ [newline]) left).reader.held = (s.reader.held ++ w) ++ [newline] := by
      simp
    rw [turn_enough hexit hg]
    refine .line hmem ?_ (examine_line_reader hheld) (examine_line_exit hheld hexit)
    rwa [examine_pending]
  | @full got left hmem hlen hstream =>
    have hmem' : newline ∉ (s.gain got left).reader.held := by simp [hs.not_mem, hmem]
    have hlong : lineLimit < (s.gain got left).reader.held.length := by
      have hle := hs.length_le
      unfold LineReader.budget at hlen
      simp only [gain_held, List.length_append]
      omega
    rw [turn_enough hexit hg, examine_tooLong hmem' hlong]
    exact .full hmem hlen hstream rfl hexit
  | woken hmem hlen hstream =>
    rw [turn_woken hexit hg]
    exact .more hmem hlen hstream rfl hexit
  | @drained got hmem hlen hstream =>
    rw [turn_drained hexit hg]
    -- Of all endings, only this one leaves it to the bytes read whether the reading is over.
    cases ending with
    | closed =>
      rw [conclude, afterDry]
      split
      · next hgot =>
        rw [List.isEmpty_iff.mp hgot] at hg
        obtain ⟨e, he⟩ := Option.ne_none_iff_exists'.mp (close_exit l (s.gain got []))
        exact .ended he fun _ => ⟨_, _, hg, fun _ => ⟨rfl, rfl⟩⟩
      · exact .more hmem hlen (by simpa using hstream) rfl hexit
    | failed reason => exact .ended rfl (by rintro ⟨⟩)
    | shutdown => exact .ended rfl (by rintro ⟨⟩)
    | abandoned => exact .ended rfl (by rintro ⟨⟩)

/-- A turn after which the reading goes on has read some of the stream, and what the
    reader holds follows from this. -/
theorem turn_follows (hexit : s.exit = none) (h : Follows read s.reader)
    (hnext : (s.turn l ending).exit = none) :
    ∃ got, streamOf s.pending = got ++ streamOf (s.turn l ending).pending ∧
      Follows (read ++ got) (s.turn l ending).reader := by
  cases turned l ending hexit h.sound with
  | @line w _ hstream hreader =>
    rw [hreader]
    exact ⟨w ++ [newline], by simpa using hstream, LineReader.follows_line read w⟩
  | full hmem hlen hstream hreader =>
    rw [hreader]
    exact ⟨_, hstream, h.full hmem hlen⟩
  | more hmem hlen hstream hreader =>
    rw [hreader]
    exact ⟨_, hstream, h.append hmem hlen⟩
  | ended hended =>
    rw [hended] at hnext
    cases hnext

/-- The same of any number of turns. -/
theorem turns_follows {n : Nat} (hexit : s.exit = none) (h : Follows read s.reader)
    (hnext : (s.turns l ending n).exit = none) :
    ∃ got, streamOf s.pending = got ++ streamOf (s.turns l ending n).pending ∧
      Follows (read ++ got) (s.turns l ending n).reader := by
  induction n generalizing s read with
  | zero => exact ⟨[], rfl, by simpa [turns] using h⟩
  | succ n ih =>
    have hturns : s.turns l ending (n + 1) = (s.turn l ending).turns l ending n := by
      simp [turns, hexit]
    rw [hturns] at hnext ⊢
    cases hturn : (s.turn l ending).exit with
    | some e =>
      rw [turns_of_exit hturn, hturn] at hnext
      cases hnext
    | none =>
      obtain ⟨got, hstream, hfollows⟩ := turn_follows hexit h hturn
      obtain ⟨more, hmore, hfollows'⟩ := ih hturn hfollows hnext
      refine ⟨got ++ more, ?_, ?_⟩
      · rw [hstream, hmore, List.append_assoc]
      · rwa [← List.append_assoc]

/-! ## Bounds -/

/-- The stream has been closed, and everything has been delivered. -/
def AtEnd (ending : StreamEnd) (s : Session σ) : Prop :=
  ending = .closed ∧ ∀ d ∈ s.pending, d = .bytes []

theorem readsNothing_iff (h : s.reader.Sound) : s.ReadsNothing ending ↔ s.AtEnd ending := by
  have hpos := LineReader.budget_pos h
  have hnothing := gather_eq_nothing_iff hpos s.pending
  constructor
  · rintro ⟨halt, left, hg, hwaiting⟩
    have hgathered := gathered hpos s.pending
    generalize hgot : ([] : List UInt8) = got at hg
    rw [hg] at hgathered
    cases hgathered with
    | line => simp at hgot
    | full _ hlen =>
      subst hgot
      exact absurd hlen (Nat.ne_of_lt hpos)
    | woken => exact absurd (hwaiting rfl).1 (List.cons_ne_nil _ _)
    | drained =>
      subst hgot
      exact ⟨(hwaiting rfl).2, hnothing.mp hg⟩
  · rintro ⟨rfl, hpending⟩
    exact ⟨_, _, hnothing.mpr hpending, fun _ => ⟨rfl, rfl⟩⟩

/-- What is true at the start of a turn when these bytes have been read. -/
structure Bounded (l : Listener σ) (ending : StreamEnd) (read : List UInt8) (s : Session σ) :
    Prop where
  newline_not_mem : newline ∉ s.reader.held
  held_le : s.reader.held.length ≤ lineLimit
  budget_pos : 1 ≤ s.reader.budget
  budget_le : s.reader.budget ≤ lineLimit + 1
  /-- All through the turn, there is one byte too many at most. -/
  during : ∀ part, part <+: (gather s.reader.budget s.pending).1 →
    (s.reader.held ++ part).length ≤ lineLimit + 1
  /-- A read brings nothing at the end of the stream, and nowhere else. -/
  readsNothing_iff : s.ReadsNothing ending ↔ s.AtEnd ending
  /-- Nothing else is taken for the end. -/
  closed : (s.turn l ending).exit = some .closed → s.AtEnd ending
  skipping_iff : s.reader.skipping = true ↔ lineLimit < (unfinished read).length

theorem bounded_of_follows (l : Listener σ) (ending : StreamEnd) (hexit : s.exit = none)
    (h : Follows read s.reader) : Bounded l ending read s where
  newline_not_mem := h.sound.not_mem
  held_le := h.length_le
  budget_pos := LineReader.budget_pos h.sound
  budget_le := Nat.sub_le _ _
  during := by
    intro part hpart
    have hgot := (gathered (LineReader.budget_pos h.sound) s.pending).length_le
    have hle := h.length_le
    have hpart := hpart.length_le
    unfold LineReader.budget at hgot hpart
    rw [List.length_append]
    omega
  readsNothing_iff := readsNothing_iff h.sound
  closed := by
    intro hclosed
    refine (readsNothing_iff h.sound).mp ?_
    cases turned l ending hexit h.sound with
    | line _ _ _ hline => simp [hclosed] at hline
    | full _ _ _ _ hfull => simp [hclosed] at hfull
    | more _ _ _ _ hmore => simp [hclosed] at hmore
    | ended hended hnothing =>
      rw [hclosed] at hended
      exact hnothing (Option.some.inj hended).symm
  skipping_iff := h.skipping_iff

/-- Between any two turns of a run, a reader is bounded, and it skips exactly if more bytes
    than a line may have were read since the last newline. -/
theorem turns_bounded {σ : Type} (l : Listener σ) (deliveries : List Delivery) (ending : StreamEnd)
    (x : σ) (n : Nat) (hgoes : (turns l ending n ⟨.fresh, x, deliveries, none⟩).exit = none) :
    let s := turns l ending n ⟨.fresh, x, deliveries, none⟩
    ∃ read, streamOf deliveries = read ++ streamOf s.pending ∧ Bounded l ending read s := by
  obtain ⟨read, hstream, hfollows⟩ := turns_follows rfl LineReader.follows_fresh hgoes
  exact ⟨read, hstream, bounded_of_follows l ending hgoes hfollows⟩

/-- A reader that is woken while it holds a long line, after two turns. The second one has
    brought more than a line may have. -/
def woken : Session Unit :=
  turns ⟨fun _ x => (.more, x), fun _ x => x⟩ .closed 2
    ⟨.fresh, (), [.bytes (List.replicate 4090 97), .wake, .bytes (List.replicate 20 97)], none⟩

theorem turns_bounded_woken :
    woken.exit = none ∧ woken.reader.skipping = true ∧
      ∃ read,
        streamOf [.bytes (List.replicate 4090 97), .wake, .bytes (List.replicate 20 97)] =
          read ++ streamOf woken.pending ∧
        Bounded ⟨fun _ x => (.more, x), fun _ x => x⟩ .closed read woken := by
  have hgoes : woken.exit = none ∧ woken.reader.skipping = true := by decide +kernel
  exact ⟨hgoes.1, hgoes.2, turns_bounded _ _ .closed () 2 hgoes.1⟩

end Session

end BuildServer.Control
