-- SUMMARY: The commands that a client sends: their fields are words, and their lines are read back unchanged.
import BuildServer.CommandLine.Client
import BuildServer.Proofs.Control.Command
import BuildServer.Proofs.Except

/-!
# Commands of a client

A client asks to stop, to restart, or for a build whose fields it has checked.
The line of such a command is made of words with single spaces between them, so
the words of the line give the command back.
-/

namespace BuildServer

namespace CommandLine

/-! ## Checked requests -/

theorem checkField_eq_ok {field value : String} {u : Unit} :
    checkField field value = .ok u ↔ Text.isWord value := by
  unfold checkField
  split <;> simp_all

/-- A build request is accepted if its fields are single words, and the command
    carries them unchanged. -/
theorem buildCommand_eq_ok {r : BuildRequest} {c : Command} :
    buildCommand r = .ok c ↔
      c = .build r ∧ Text.isWord r.repo ∧ Text.isWord r.profile ∧ Text.isWord r.branch ∧
        Text.isWord r.revision := by
  simp only [buildCommand, bind_eq_ok, checkField_eq_ok, pure, Except.pure, Except.ok.injEq,
    exists_and_left, exists_const]
  constructor
  · rintro ⟨hrepo, hprofile, hbranch, hrevision, rfl⟩
    exact ⟨rfl, hrepo, hprofile, hbranch, hrevision⟩
  · rintro ⟨rfl, hrepo, hprofile, hbranch, hrevision⟩
    exact ⟨hrepo, hprofile, hbranch, hrevision, rfl⟩

/-- What a client may send: the commands of the three actions that reach a
    running server. -/
inductive Sendable : Command → Prop where
  | stop : Sendable .stop
  | restart : Sendable .restart
  | build {r : BuildRequest} {c : Command} (accepted : buildCommand r = .ok c) : Sendable c

/-! ## Lines -/

namespace Sendable

variable {c : Command}

theorem isWord_of_mem_words (h : Sendable c) : ∀ w ∈ c.words, Text.isWord w := by
  cases h with
  | stop => decide
  | restart => decide
  | build accepted =>
    obtain ⟨rfl, hrepo, hprofile, hbranch, hrevision⟩ := buildCommand_eq_ok.mp accepted
    have hbuild : Text.isWord "BUILD" := by decide
    simp [Command.words, hbuild, hrepo, hprofile, hbranch, hrevision]

theorem wellFormed (h : Sendable c) : c.WellFormed := by
  cases h with
  | stop => trivial
  | restart => trivial
  | build accepted =>
    obtain ⟨rfl, -⟩ := buildCommand_eq_ok.mp accepted
    trivial

theorem line_eq_intercalate (h : Sendable c) : c.line = " ".intercalate c.words :=
  Command.line_eq_intercalate h.wellFormed

theorem words_line (h : Sendable c) : Text.words c.line = c.words := by
  rw [h.line_eq_intercalate, Text.words_intercalate h.isWord_of_mem_words]

/-- Parsing the line of a command gives the command. -/
theorem parse_line (h : Sendable c) : Command.parse c.line = c :=
  (Command.parse_eq_iff_words h.wellFormed).mpr h.words_line

/-- A line has no blanks but spaces, so no line break occurs in it. -/
theorem not_mem_line (h : Sendable c) {x : Char} (hblank : Text.isBlank x) (hx : x ≠ ' ') :
    x ∉ c.line.toList := by
  intro hmem
  rw [h.line_eq_intercalate] at hmem
  exact hx (Text.eq_space_of_mem_intercalate h.isWord_of_mem_words hmem hblank)

theorem line_not_blank (h : Sendable c) : c.line.toList.all Text.isBlank = false := by
  rw [← Bool.not_eq_true]
  intro hall
  have hnil := Text.words_eq_nil hall
  rw [h.words_line] at hnil
  cases h with
  | stop => cases hnil
  | restart => cases hnil
  | build accepted =>
    obtain ⟨rfl, -⟩ := buildCommand_eq_ok.mp accepted
    cases hnil

end Sendable

end CommandLine

end BuildServer
