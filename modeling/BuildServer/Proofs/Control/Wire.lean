-- SUMMARY: From the client's commands to the lines that the server hears: only lines that are too long are lost.
import BuildServer.Control.Channel
import BuildServer.Proofs.CommandLine.Client
import BuildServer.Proofs.Control.Transcript

/-!
# Wire

No line break occurs in the line of a command that a client sends, so the server
cuts the stream where the client ended a line and reads what the client wrote.
What is lost are the commands whose line is longer than the server's limit.
-/

namespace BuildServer

namespace Control

open CommandLine (Sendable)

variable {τ : Type}

/-! ## Lines as bytes -/

theorem wire_eq (c : Command) : wire c = Text.utf8Encode c.line ++ [newline] := by
  rw [wire, Text.utf8Encode_append]
  rfl

theorem newline_not_mem_line {c : Command} (h : Sendable c) :
    newline ∉ Text.utf8Encode c.line := by
  intro hmem
  obtain ⟨x, hx, hb⟩ := List.mem_flatMap.mp hmem
  have hnewline : x = '\n' := by
    have := Text.Utf8.toNat_eq_of_mem_utf8EncodeChar hb (by decide)
    exact Char.toNat_inj.mp this
  exact h.not_mem_line (by decide) (by decide) (hnewline ▸ hx)

/-- The server reads the text that the client wrote. -/
theorem lineText_line {c : Command} (h : Sendable c) :
    lineText (Text.utf8Encode c.line) = c.line := by
  rw [lineText, Text.utf8DecodeLossy_utf8Encode]
  have hkept : Text.dropTail (fun x => x == '\n' || x == '\r') c.line.toList = c.line.toList := by
    refine List.rdropWhile_eq_self_iff.mpr fun hne hlast => ?_
    rw [Bool.or_eq_true, beq_iff_eq, beq_iff_eq] at hlast
    have hmem := List.getLast_mem hne
    rcases hlast with hlast | hlast
    · exact h.not_mem_line (x := '\n') (by decide) (by decide) (hlast ▸ hmem)
    · exact h.not_mem_line (x := '\r') (by decide) (by decide) (hlast ▸ hmem)
  rw [hkept, String.ofList_toList]

/-- Whether the line of a command is within the server's limit, which does not
    count the newline. -/
def fits (c : Command) : Bool :=
  (Text.utf8Encode c.line).length ≤ lineLimit

theorem ofPiece?_line {c : Command} (h : Sendable c) :
    Arrival.ofPiece? (Text.utf8Encode c.line) =
      some (if fits c then .line c.line else .tooLong) := by
  by_cases hlen : (Text.utf8Encode c.line).length ≤ lineLimit
  · simp [Arrival.ofPiece?, fits, hlen, Nat.not_lt.mpr hlen, lineText_line h, h.line_not_blank]
  · simp [Arrival.ofPiece?, fits, hlen, Nat.lt_of_not_le hlen]

/-- The commands of a stream arrive one by one, however the stream ends. -/
theorem arrivals_wire (ending : StreamEnd) {cs : List Command} (h : ∀ c ∈ cs, Sendable c) :
    arrivals ending (cs.flatMap wire) =
      cs.map fun c => if fits c then .line c.line else .tooLong := by
  induction cs with
  | nil => cases ending <;> rfl
  | cons c cs ih =>
    have hc := h c (by simp)
    rw [List.flatMap_cons, wire_eq, List.append_assoc, List.singleton_append, arrivals,
      List.splitOn_append_cons_self_of_not_mem (newline_not_mem_line hc),
      Arrival.ofPieces_cons ending _ (List.splitOn_ne_nil newline _), ofPiece?_line hc,
      ← arrivals, ih fun d hd => h d (by simp [hd])]
    rfl

/-! ## Round trip -/

theorem heard_of_more {handler : String → τ → Flow × τ}
    (h : ∀ text x, (handler text x).1 = .more) (own : τ) (as : List Arrival) :
    heard handler own as = (as, .more) := by
  induction as generalizing own with
  | nil => rfl
  | cons a as ih =>
    cases a with
    | tooLong => simp [heard, ih]
    | line text =>
      have hmore := h text own
      rcases hhandler : handler text own with ⟨flow, own'⟩
      rw [hhandler] at hmore
      subst hmore
      simp [heard, hhandler, ih]

/-- A handler that always wants more is called with every line of the stream. -/
theorem readLines_of_more {handler : String → τ → Flow × τ}
    (h : ∀ text x, (handler text x).1 = .more) (own : τ) (deliveries : List Delivery)
    (ending : StreamEnd) :
    let s := readLines (.recording handler) false deliveries ending (.start own)
    let as := arrivals ending (streamOf deliveries)
    s.listening.calls = as.filterMap Arrival.text? ∧
      s.listening.warnings = as.count .tooLong ∧ s.exit = some ending.exit := by
  intro s as
  obtain ⟨hexit, hlistening⟩ :=
    readLines_eq_attend (.recording handler) deliveries ending (.start own)
  obtain ⟨hflow, hcalls, hwarnings⟩ := attend_recording handler ending as (.start own)
  rw [heard_of_more h] at hflow hcalls hwarnings
  rw [show s.exit = _ from hexit, show s.listening = _ from hlistening]
  refine ⟨?_, ?_, congrArg some hflow⟩
  · rw [hcalls]
    rfl
  · rw [hwarnings]
    exact Nat.zero_add _

theorem lines_wire (ending : StreamEnd) {cs : List Command} (h : ∀ c ∈ cs, Sendable c) :
    (arrivals ending (cs.flatMap wire)).filterMap Arrival.text? =
      (cs.filter fits).map Command.line := by
  rw [arrivals_wire ending h]
  clear h
  induction cs with
  | nil => rfl
  | cons c cs ih => by_cases hc : fits c <;> simp [hc, Arrival.text?, List.filterMap_cons, ih]

theorem count_tooLong_wire (ending : StreamEnd) {cs : List Command} (h : ∀ c ∈ cs, Sendable c) :
    (arrivals ending (cs.flatMap wire)).count .tooLong = cs.countP fun c => !fits c := by
  rw [arrivals_wire ending h]
  clear h
  induction cs with
  | nil => rfl
  | cons c cs ih => by_cases hc : fits c <;> simp [hc, ih]

theorem map_parse_line {cs : List Command} (h : ∀ c ∈ cs, Sendable c) :
    ((cs.filter fits).map Command.line).map Command.parse = cs.filter fits := by
  rw [List.map_map]
  have hline : ∀ c ∈ cs.filter fits, (Command.parse ∘ Command.line) c = id c := by
    intro c hc
    rw [Function.comp_apply, (h c (List.mem_of_mem_filter hc)).parse_line, id]
  rw [List.map_congr_left hline, List.map_id]

/-- Whatever commands clients send, and however the bytes are divided on their
    way, the lines that the handler is called with are parsed to the commands
    that were sent, in order and unchanged, except that those with a line beyond
    the limit are missing. Each of these is reported once. -/
theorem readLines_wire {handler : String → τ → Flow × τ}
    (hhandler : ∀ text x, (handler text x).1 = .more) (own : τ) {cs : List Command}
    (hcs : ∀ c ∈ cs, Sendable c) {deliveries : List Delivery}
    (hstream : streamOf deliveries = cs.flatMap wire) (ending : StreamEnd) :
    let s := readLines (.recording handler) false deliveries ending (.start own)
    s.listening.calls.map Command.parse = cs.filter fits ∧
      s.listening.warnings = cs.countP (fun c => !fits c) ∧
      s.exit = some ending.exit := by
  intro s
  obtain ⟨hcalls, hwarnings, hexit⟩ := readLines_of_more hhandler own deliveries ending
  refine ⟨?_, ?_, hexit⟩
  · rw [show s.listening.calls = _ from hcalls, hstream, lines_wire ending hcs,
      map_parse_line hcs]
  · rw [show s.listening.warnings = _ from hwarnings, hstream, count_tooLong_wire ending hcs]

/-- The second command is cut in two, and the third arrives along with its end. -/
theorem readLines_wire_divided :
    let cs : List Command := [.stop, .build ⟨"r", "p", "b", "v"⟩, .restart]
    let deliveries : List Delivery := [
      .bytes (Text.utf8Encode "STOP\nBUI"), .wake, .bytes (Text.utf8Encode "LD r p b v\nRESTART\n")]
    let handler : String → Nat → Flow × Nat := fun _ n => (.more, n + 1)
    let s := readLines (.recording handler) false deliveries .closed (.start 0)
    s.listening.calls.map Command.parse = cs ∧ s.exit = some .closed := by
  intro cs deliveries handler s
  have hbuild : Sendable (.build ⟨"r", "p", "b", "v"⟩) :=
    .build (r := ⟨"r", "p", "b", "v"⟩) (by decide)
  have hcs : ∀ c ∈ cs, Sendable c := by
    simp [cs, Sendable.stop, Sendable.restart, hbuild]
  have hstream : streamOf deliveries = cs.flatMap wire := by decide +kernel
  have hfits : cs.filter fits = cs := by decide +kernel
  have hmore : ∀ text n, (handler text n).1 = .more := fun _ _ => rfl
  clear_value cs deliveries handler
  obtain ⟨hcalls, -, hexit⟩ := readLines_wire hmore 0 hcs hstream .closed
  exact ⟨hcalls.trans hfits, hexit⟩

/-- A request whose line has twelve bytes before its revision. -/
def padded (n : Nat) : BuildRequest :=
  ⟨"r", "p", "b", String.ofList (List.replicate n 'a')⟩

theorem buildCommand_padded {n : Nat} (hn : 0 < n) :
    CommandLine.buildCommand (padded n) = .ok (.build (padded n)) := by
  have hshort : Text.isWord "r" ∧ Text.isWord "p" ∧ Text.isWord "b" := by decide
  have hblank : Text.isBlank 'a' = false := by decide
  have hrevision : Text.isWord (padded n).revision := by
    simp [padded, Text.isWord, hblank]
    omega
  exact CommandLine.buildCommand_eq_ok.mpr ⟨rfl, hshort.1, hshort.2.1, hshort.2.2, hrevision⟩

theorem length_line_padded (n : Nat) :
    (Text.utf8Encode (Command.build (padded n)).line).length = 12 + n := by
  have hline : (Command.build (padded n)).line = "BUILD r p b " ++ (padded n).revision := rfl
  have hbefore : (Text.utf8Encode "BUILD r p b ").length = 12 := by decide
  have hdigits : (padded n).revision.toList.all BuildId.isDigit := by
    simp [padded, BuildId.isDigit]
  have hrevision := BuildId.length_utf8Encode hdigits
  rw [hline, Text.utf8Encode_append, List.length_append, hbefore, hrevision]
  simp [padded]

theorem fits_of_length_eq {c : Command} (h : (Text.utf8Encode c.line).length = lineLimit) :
    fits c := by
  simp [fits, h]

theorem calls_wire_singleton {handler : String → τ → Flow × τ}
    (hhandler : ∀ text x, (handler text x).1 = .more) (own : τ) {c : Command} (hc : Sendable c)
    (hfits : fits c) (ending : StreamEnd) :
    (readLines (.recording handler) false [.bytes (wire c)] ending
      (.start own)).listening.calls.map Command.parse = [c] := by
  have hcs : ∀ d ∈ [c], Sendable d := by simpa using hc
  have hstream : streamOf [.bytes (wire c)] = [c].flatMap wire := by simp
  obtain ⟨hcalls, -⟩ := readLines_of_more hhandler own [.bytes (wire c)] ending
  rw [hcalls, hstream, lines_wire ending hcs, map_parse_line hcs, List.filter_singleton, hfits,
    cond_true]

/-- The newline does not count: a command is heard although what the client
    writes for it is a byte longer than the limit. -/
theorem readLines_wire_at_limit :
    let c := Command.build (padded 4084)
    let handler : String → Unit → Flow × Unit := fun _ x => (.more, x)
    let s := readLines (.recording handler) false [.bytes (wire c)] .closed (.start ())
    Sendable c ∧ (wire c).length = lineLimit + 1 ∧ s.listening.calls.map Command.parse = [c] := by
  intro c handler s
  have hc : Sendable c := .build (buildCommand_padded (by decide))
  have hlength : (Text.utf8Encode c.line).length = lineLimit := length_line_padded 4084
  have hmore : ∀ text x, (handler text x).1 = .more := fun _ _ => rfl
  have hcalls := calls_wire_singleton hmore () hc (fits_of_length_eq hlength) .closed
  clear_value c handler
  have hwire : (wire c).length = lineLimit + 1 := by
    rw [wire_eq, List.length_append, hlength, List.length_singleton]
  exact ⟨hc, hwire, hcalls⟩

end Control

end BuildServer
