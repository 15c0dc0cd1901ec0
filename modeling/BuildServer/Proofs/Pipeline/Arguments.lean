-- SUMMARY: When a token of a build stays one argument of the configure command.
import BuildServer.Proofs.Pipeline.Tokens

/-!
# Tokens as arguments

Tokens are replaced before the configure command is split into words, so that the
value of a token is read again as part of a command line. A token that is a word of
its own becomes one argument, its value as a whole, if the value is not empty and
nothing in it separates, quotes, escapes or begins a comment. Otherwise it does not,
but for a value at the end of the command, which may itself end in a backslash.
-/

namespace BuildServer.Build

/-! ## Templates -/

/-- A word of a configure command without quotes. -/
inductive TemplateWord where
  | plain (w : String)
  | own (t : OwnToken)
  deriving DecidableEq, Repr

namespace TemplateWord

/-- How a word is written. -/
def sign : TemplateWord → String
  | plain w => w
  | own t => t.sign

/-- What a word stands for. -/
def value (job : Job) (id : BuildId) (layout : Layout) : TemplateWord → String
  | plain w => w
  | own t => t.value job id layout

end TemplateWord

/-- A configure command of a program and these words. -/
def templateCommand (name : String) (words : List TemplateWord) : String :=
  " ".intercalate (name :: words.map TemplateWord.sign)

/-- A word that is neither expanded nor read as anything but itself. -/
structure IsPlain (w : String) : Prop where
  ne_empty : w ≠ ""
  literal : Text.IsLiteral w
  no_sign : '@' ∉ w.toList

instance (w : String) : Decidable (IsPlain w) :=
  decidable_of_iff (w ≠ "" ∧ Text.IsLiteral w ∧ '@' ∉ w.toList)
    ⟨fun h => ⟨h.1, h.2.1, h.2.2⟩, fun h => ⟨h.1, h.2, h.3⟩⟩

/-- A build gets to its last gate with the name of a program that is found and then
    these words as its configure command. -/
structure Templated (env : BuildEnvironment) (job : Job) (id : BuildId) (site : Site) (p : Progress)
    (reached : Site) (name program : String) (words : List TemplateWord) : Prop where
  passes : Passes env job id Gate.configure.earlier site p reached
  name_plain : IsPlain name
  name_not_blank : name.toList.all Text.isBlank = false
  words_plain : ∀ w, .plain w ∈ words → IsPlain w
  command : p.config.get? (configureKey job.profile) = some (templateCommand name words)
  found : env.locate reached.fs name = some program

/-- What stands for a token is read as one word, and as this one. -/
def Whole (value : String) (atEnd : Prop) : Prop :=
  (value ≠ "" ∧ Text.IsLiteral value) ∨ (atEnd ∧ ∃ v, Text.IsLiteral v ∧ value = v ++ "\\")

section

variable {env : BuildEnvironment} {job : Job} {id : BuildId} {layout : Layout}
variable {words : List TemplateWord}

theorem becomes_sign {b : Bindings} {w : TemplateWord} (hplain : ∀ v, w = .plain v → IsPlain v) :
    (ownBindings b job id layout).Becomes w.sign.toList (w.value job id layout).toList := by
  cases w with
  | plain v => exact .literal (hplain v rfl).no_sign
  | own t =>
    have hbound : (ownBindings b job id layout).get? t.name = some (t.value job id layout) :=
      get?_ownBindings_own b t
    have hvalue : (ownBindings b job id layout).value t.name.toList =
        (t.value job id layout).toList := by
      rw [Bindings.value, String.ofList_toList, hbound, Option.getD_some]
    have hsign : t.sign.toList = '@' :: t.name.toList ++ ['@'] := by simp [OwnToken.sign]
    rw [TemplateWord.sign, TemplateWord.value, hsign, ← hvalue]
    exact .token (t.isKey hbound)

/-- A template expands to the values of its words. -/
theorem expand_template {b : Bindings} (hplain : ∀ v, .plain v ∈ words → IsPlain v) :
    (ownBindings b job id layout).expand (" ".intercalate (words.map TemplateWord.sign)) =
      .ok (" ".intercalate (words.map (·.value job id layout))) := by
  refine Bindings.Becomes.expand ?_
  rw [String.toList_intercalate, String.toList_intercalate, List.map_map, List.map_map]
  refine .intercalate fun w hw => becomes_sign ?_
  rintro v rfl
  exact hplain v hw

/-- Only what stands for a token can keep words from standing for themselves. -/
theorem stand_values (hplain : ∀ v, .plain v ∈ words → IsPlain v) :
    Text.Stand (words.map (·.value job id layout)) ↔
      ∀ before t after, words = before ++ .own t :: after →
        Whole (t.value job id layout) (after = []) := by
  induction words with
  | nil => simp [Text.Stand.nil]
  | cons w words ih =>
    have hrest := ih fun v hv => hplain v (List.mem_cons_of_mem w hv)
    rw [List.map_cons, Text.stand_cons_iff, List.map_eq_nil_iff, hrest]
    constructor
    · intro h before t after heq
      obtain ⟨rfl, hcons⟩ | ⟨before, rfl, rfl⟩ := List.cons_eq_append_iff.mp heq
      · obtain ⟨rfl, rfl⟩ := List.cons.inj hcons
        obtain ⟨hliteral, -⟩ | hend := h
        · exact .inl hliteral
        · exact .inr hend
      · obtain ⟨-, hwords⟩ | ⟨hnil, -⟩ := h
        · exact hwords before t after rfl
        · simp at hnil
    · intro h
      have hwords : ∀ before t after, words = before ++ .own t :: after →
          Whole (t.value job id layout) (after = []) := by
        intro before t after heq
        exact h (w :: before) t after (by rw [heq, List.cons_append])
      cases w with
      | plain v =>
        have hv := hplain v List.mem_cons_self
        exact .inl ⟨⟨hv.ne_empty, hv.literal⟩, hwords⟩
      | own t =>
        obtain hliteral | hend := h [] t words rfl
        · exact .inl ⟨hliteral, hwords⟩
        · exact .inr hend

/-- The last gate runs the program with the words that come of the values. -/
theorem calls_of_templated {site reached : Site} {p : Progress} {name program : String}
    (h : Templated env job id site p reached name program words) :
    let layout := Layout.of env.buildRoot job.profile job.repo id
    (runBuild env job id site).2.calls = reached.calls ++
      ((Text.splitQuoted (" ".intercalate (words.map (·.value job id layout)))).map fun args =>
        configureCall program args layout).toList := by
  intro layout
  obtain ⟨loaded, -, hbindings⟩ := bindings_of_passes h.passes
  have hplain : ∀ v, .plain v ∈ TemplateWord.plain name :: words → IsPlain v := by
    intro v hv
    rw [List.mem_cons, TemplateWord.plain.injEq] at hv
    obtain rfl | hv := hv
    · exact h.name_plain
    · exact h.words_plain v hv
  have hexpand : p.bindings.expand (templateCommand name words) =
      .ok (" ".intercalate (name :: words.map (·.value job id layout))) := by
    rw [hbindings]
    exact expand_template hplain
  have hblank : (templateCommand name words).toList.all Text.isBlank = false := by
    rw [templateCommand]
    cases words.map TemplateWord.sign with
    | nil => rw [String.intercalate_singleton, h.name_not_blank]
    | cons v vs =>
      rw [String.intercalate_cons_cons, String.toList_append, String.toList_append,
        List.all_append, List.all_append, h.name_not_blank]
      rfl
  -- The name of the program is read off first, whatever comes after it.
  have hwords := configureWords_of_expand h.command hblank hexpand
  rw [Text.splitQuoted_cons h.name_plain.literal h.name_plain.ne_empty] at hwords
  rw [calls_of_passes h.passes, hwords]
  cases Text.splitQuoted (" ".intercalate (words.map (·.value job id layout))) with
  | none => rfl
  | some args => simp [configureCalls, h.found, layout]

/-- Each word becomes one argument, a token as its value as a whole, if and only if each of
    these values is whole. -/
theorem own_tokens_whole {site reached : Site} {p : Progress} {name program : String}
    (h : Templated env job id site p reached name program words) :
    let layout := Layout.of env.buildRoot job.profile job.repo id
    (runBuild env job id site).2.calls =
        reached.calls ++ [⟨program, words.map (·.value job id layout), some layout.binaries⟩] ↔
      ∀ before t after, words = before ++ .own t :: after →
        Whole (t.value job id layout) (after = []) := by
  intro layout
  rw [calls_of_templated h, ← stand_values h.words_plain, ← Text.splitQuoted_eq_iff_stand,
    List.append_cancel_left_eq]
  cases Text.splitQuoted (" ".intercalate (words.map (·.value job id layout))) with
  | none => simp
  | some args => simp [configureCall, layout]

end

/-! ## Build roots with and without a space -/

theorem templated_commandEnv (root name : String) {words : List TemplateWord}
    (hname : IsPlain name) (hblank : name.toList.all Text.isBlank = false)
    (hwords : ∀ w, .plain w ∈ words → IsPlain w)
    (hcommand : (on (meet (commandEnv root (templateCommand name words)) (jobOf "p") firstId .start
        Gate.configure.earlier) ⟨vacantRoot, [], []⟩).1.toOption.bind
          (fun p => p.config.get? (configureKey "p")) = some (templateCommand name words)) :
    ∃ p reached, Templated (commandEnv root (templateCommand name words)) (jobOf "p") firstId
      ⟨vacantRoot, [], []⟩ p reached name (Path.join "/usr/bin" name) words := by
  cases hmeet : on (meet (commandEnv root (templateCommand name words)) (jobOf "p") firstId .start
      Gate.configure.earlier) ⟨vacantRoot, [], []⟩ with
  | mk r reached =>
    rw [hmeet] at hcommand
    cases r with
    | error e => cases hcommand
    | ok p => exact ⟨p, reached, hmeet, hname, hblank, hwords, hcommand, rfl⟩

def sourcesTemplate : List TemplateWord := [.plain "-S", .own .sources]

theorem isPlain_sourcesTemplate (w : String) (hw : .plain w ∈ sourcesTemplate) : IsPlain w := by
  obtain rfl : w = "-S" := by simpa [sourcesTemplate] using hw
  decide

theorem own_tokens_whole_sources :
    (buildOn (commandEnv "b" "c -S @CMAKE_SOURCE_DIRECTORY@") (jobOf "p") firstId
      vacantRoot).2.calls.getLast? =
      some ⟨"/usr/bin/c", ["-S", "/b/p/r/0a1b2c3d/repo"], some "/b/p/r/0a1b2c3d/build"⟩ := by
  have hcommand : templateCommand "c" sourcesTemplate = "c -S @CMAKE_SOURCE_DIRECTORY@" := by
    decide
  obtain ⟨p, reached, h⟩ := templated_commandEnv "b" "c" (by decide) (by decide)
    isPlain_sourcesTemplate (by decide +kernel)
  have hcalls := (own_tokens_whole h).mpr fun before t after heq => by
    have hmem : .own t ∈ sourcesTemplate := heq ▸ (by simp)
    obtain rfl : t = .sources := by simpa [sourcesTemplate] using hmem
    exact .inl (by decide +kernel)
  rw [hcommand] at hcalls
  rw [buildOn, hcalls, List.getLast?_concat]
  decide +kernel

/-- With a space in the path of the build root, the path of the sources becomes two
    arguments. -/
theorem own_token_divided :
    ∃ p reached,
      Templated (commandEnv "a b" (templateCommand "c" sourcesTemplate)) (jobOf "p") firstId
        ⟨vacantRoot, [], []⟩ p reached "c" "/usr/bin/c" sourcesTemplate ∧
      (buildOn (commandEnv "a b" (templateCommand "c" sourcesTemplate)) (jobOf "p") firstId
        vacantRoot).2.calls ≠ reached.calls ++ [⟨"/usr/bin/c",
          ["-S", "/a b/p/r/0a1b2c3d/repo"], some "/a b/p/r/0a1b2c3d/build"⟩] ∧
      (buildOn (commandEnv "a b" (templateCommand "c" sourcesTemplate)) (jobOf "p") firstId
        vacantRoot).2.calls.getLast? = some ⟨"/usr/bin/c",
          ["-S", "/a", "b/p/r/0a1b2c3d/repo"], some "/a b/p/r/0a1b2c3d/build"⟩ := by
  obtain ⟨p, reached, h⟩ := templated_commandEnv "a b" "c" (by decide) (by decide)
    isPlain_sourcesTemplate (by decide +kernel)
  have hlast : (buildOn (commandEnv "a b" (templateCommand "c" sourcesTemplate)) (jobOf "p") firstId
      vacantRoot).2.calls.getLast? = some ⟨"/usr/bin/c", ["-S", "/a", "b/p/r/0a1b2c3d/repo"],
        some "/a b/p/r/0a1b2c3d/build"⟩ := by decide +kernel
  refine ⟨p, reached, h, fun hwhole => ?_, hlast⟩
  rw [hwhole, List.getLast?_concat] at hlast
  exact absurd hlast (by decide)

end BuildServer.Build
