-- SUMMARY: A line is read by its words alone, and what is written for the command that was read is its canonical form.
import BuildServer.Control.Command
import BuildServer.Proofs.Text.Words

/-!
# Reading and writing commands

Whether the keyword of a line is compared with the trimmed line or with its only
word makes no difference, so a line is read by its words, and only a malformed one
keeps more than them. What is written for a command that was read from a line has
the words of the line and is read as the same command.
-/

namespace BuildServer

theorem isWord_stop : Text.isWord "STOP" := by decide

theorem isWord_restart : Text.isWord "RESTART" := by decide

namespace Command

/-- The command asks for something. -/
def WellFormed : Command → Prop
  | .malformed _ => False
  | _ => True

/-- The words of a command's line. -/
def words : Command → List String
  | .stop => ["STOP"]
  | .restart => ["RESTART"]
  | .build r => ["BUILD", r.repo, r.profile, r.branch, r.revision]
  | .malformed text => Text.words text

variable {line : String} {c : Command} {ws : List String}

/-! ## Reading -/

/-- The command that some words give. If they give no other, it is a malformed one with
    this text. -/
def ofWords (text : String) : List String → Command
  | ["STOP"] => .stop
  | ["RESTART"] => .restart
  | ["BUILD", repo, profile, branch, revision] => .build { repo, profile, branch, revision }
  | _ => .malformed text

theorem parse_eq_ofWords (line : String) :
    parse line = ofWords (Text.trim line) (Text.words line) := by
  rw [parse]
  by_cases hstop : Text.trim line = "STOP"
  · rw [if_pos hstop, (Text.trim_eq_iff_words isWord_stop).mp hstop]
    rfl
  by_cases hrestart : Text.trim line = "RESTART"
  · rw [if_neg hstop, if_pos hrestart, (Text.trim_eq_iff_words isWord_restart).mp hrestart]
    rfl
  rw [if_neg hstop, if_neg hrestart, Text.words_trim]
  rw [Text.trim_eq_iff_words isWord_stop] at hstop
  rw [Text.trim_eq_iff_words isWord_restart] at hrestart
  unfold ofWords
  split <;> simp_all

theorem ofWords_words (hc : c.WellFormed) (text : String) : ofWords text c.words = c := by
  cases c with
  | malformed => exact hc.elim
  | _ => rfl

theorem words_ofWords {text : String} (h : (ofWords text ws).WellFormed) :
    (ofWords text ws).words = ws := by
  unfold ofWords at h ⊢
  split
  · rfl
  · rfl
  · rfl
  · exact absurd h (by simp_all [WellFormed])

theorem ofWords_cases (text : String) (ws : List String) :
    (ofWords text ws).WellFormed ∨ ofWords text ws = .malformed text := by
  unfold ofWords
  split
  · exact .inl trivial
  · exact .inl trivial
  · exact .inl trivial
  · exact .inr rfl

/-- A line gives what its words ask for, or it is malformed and keeps its text. -/
theorem parse_cases (line : String) :
    (parse line).WellFormed ∧ (parse line).words = Text.words line ∨
      parse line = .malformed (Text.trim line) := by
  rw [parse_eq_ofWords]
  obtain h | h := ofWords_cases (Text.trim line) (Text.words line)
  · exact .inl ⟨h, words_ofWords h⟩
  · exact .inr h

theorem parse_eq_iff_words (hc : c.WellFormed) : parse line = c ↔ Text.words line = c.words := by
  rw [parse_eq_ofWords]
  constructor
  · rintro rfl
    exact (words_ofWords hc).symm
  · intro h
    rw [h, ofWords_words hc]

theorem parse_eq_malformed {text : String} :
    parse line = .malformed text ↔
      text = Text.trim line ∧ ∀ c : Command, c.WellFormed → Text.words line ≠ c.words := by
  constructor
  · intro h
    refine ⟨?_, fun c hc hwords => ?_⟩
    · rw [parse_eq_ofWords] at h
      obtain hvalid | hmalformed := ofWords_cases (Text.trim line) (Text.words line)
      · rw [h] at hvalid
        exact hvalid.elim
      · exact Command.malformed.inj (h.symm.trans hmalformed)
    · rw [(parse_eq_iff_words hc).mpr hwords] at h
      rw [h] at hc
      exact hc
  · rintro ⟨rfl, hnone⟩
    rw [parse_eq_ofWords]
    obtain hvalid | hmalformed := ofWords_cases (Text.trim line) (Text.words line)
    · exact absurd (words_ofWords hvalid).symm (hnone _ hvalid)
    · exact hmalformed

/-- A line is read by its maximal runs of characters that are not blank. It asks to stop, to
    restart or to build if these are the words of such a request, and otherwise it is
    malformed, with the text between the blanks around it. -/
theorem parse_exact (line : String) : ∃ ws text,
    (∀ ws', Text.AreWords line ws' ↔ ws' = ws) ∧
    (∀ text', Text.TrimsTo line text' ↔ text' = text) ∧
    (parse line = .stop ↔ ws = ["STOP"]) ∧
    (parse line = .restart ↔ ws = ["RESTART"]) ∧
    (∀ r, parse line = .build r ↔ ws = ["BUILD", r.repo, r.profile, r.branch, r.revision]) ∧
    (∀ text', parse line = .malformed text' ↔ text' = text ∧ ws ≠ ["STOP"] ∧ ws ≠ ["RESTART"] ∧
      ∀ r : BuildRequest, ws ≠ ["BUILD", r.repo, r.profile, r.branch, r.revision]) ∧
    ∀ r, parse line = .build r → Text.isWord r.repo ∧ Text.isWord r.profile ∧
      Text.isWord r.branch ∧ Text.isWord r.revision := by
  refine ⟨Text.words line, Text.trim line, fun _ => Text.areWords_iff, fun _ => Text.trimsTo_iff,
    parse_eq_iff_words trivial, parse_eq_iff_words trivial, fun r => parse_eq_iff_words trivial,
    fun text => ?_, fun r h => ?_⟩
  · rw [parse_eq_malformed]
    refine and_congr_right fun _ => ⟨fun h => ?_, ?_⟩
    · exact ⟨h .stop trivial, h .restart trivial, fun r => h (.build r) trivial⟩
    · rintro ⟨hstop, hrestart, hbuild⟩ c hc
      cases c with
      | stop => exact hstop
      | restart => exact hrestart
      | build r => exact hbuild r
      | malformed => exact hc.elim
  · have hwords := (parse_eq_iff_words (c := .build r) trivial).mp h
    have hword : ∀ w ∈ words (.build r), Text.isWord w := fun w hw =>
      Text.isWord_of_mem_words (hwords ▸ hw)
    exact ⟨hword _ (by simp [words]), hword _ (by simp [words]), hword _ (by simp [words]),
      hword _ (by simp [words])⟩

/-! ## Writing -/

theorem line_eq_intercalate (hc : c.WellFormed) : c.line = " ".intercalate c.words := by
  cases c with
  | stop => rfl
  | restart => rfl
  | build r =>
    simp only [line, words, String.intercalate_cons_cons, String.intercalate_singleton,
      String.append_assoc]
    rfl
  | malformed => exact hc.elim

/-- What is written for a command that was read is its words with single spaces, or the
    trimmed line. -/
theorem line_parse_cases (line : String) :
    (parse line).WellFormed ∧ (parse line).line = " ".intercalate (Text.words line) ∨
      parse line = .malformed (Text.trim line) := by
  obtain ⟨hvalid, hwords⟩ | hmalformed := parse_cases line
  · exact .inl ⟨hvalid, by rw [line_eq_intercalate hvalid, hwords]⟩
  · exact .inr hmalformed

theorem words_line_parse (line : String) : Text.words (parse line).line = Text.words line := by
  obtain ⟨-, hline⟩ | hmalformed := line_parse_cases line
  · rw [hline, Text.words_intercalate fun w hw => Text.isWord_of_mem_words hw]
  · rw [hmalformed]
    exact Text.words_trim line

theorem bare_line_parse (line : String) : Text.Bare (parse line).line := by
  obtain ⟨-, hline⟩ | hmalformed := line_parse_cases line
  · rw [hline]
    exact Text.bare_intercalate fun w hw => Text.isWord_of_mem_words hw
  · rw [hmalformed]
    exact Text.bare_trim line

theorem parse_line_parse (line : String) : parse (parse line).line = parse line := by
  obtain ⟨hvalid, hwords⟩ | hmalformed := parse_cases line
  · rw [parse_eq_iff_words hvalid, words_line_parse, hwords]
  · obtain ⟨-, hnone⟩ := parse_eq_malformed.mp hmalformed
    rw [hmalformed, Command.line, parse_eq_malformed, Text.words_trim]
    exact ⟨(Text.bare_trim line).trim_eq.symm, hnone⟩

/-- What is written for the command of a line is read as the same command. It has the words
    of the line, no blanks around them and, unless the command is malformed, one space between
    two of them, so that lines with the same words are written in the same way. -/
theorem line_parse_canonical (line : String) :
    parse (parse line).line = parse line ∧
    (∀ ws, Text.AreWords (parse line).line ws ↔ Text.AreWords line ws) ∧
    Text.Bare (parse line).line ∧
    ((∀ text, parse line ≠ .malformed text) →
      (∀ ws, Text.AreWords line ws → (parse line).line = " ".intercalate ws) ∧
      ∀ line' ws, Text.AreWords line ws → Text.AreWords line' ws →
        (parse line').line = (parse line).line) := by
  refine ⟨parse_line_parse line, fun ws => ?_, bare_line_parse line, fun hwritten => ?_⟩
  · rw [Text.areWords_iff, Text.areWords_iff, words_line_parse]
  · obtain ⟨hvalid, hwords⟩ := (parse_cases line).resolve_right (hwritten _)
    refine ⟨fun ws hws => ?_, fun line' ws hws hws' => ?_⟩
    · rw [line_eq_intercalate hvalid, hwords, Text.areWords_iff.mp hws]
    · rw [Text.areWords_iff] at hws hws'
      have hsame : parse line' = parse line := by
        rw [parse_eq_iff_words hvalid, hwords, ← hws, ← hws']
      rw [hsame]

end Command

end BuildServer
