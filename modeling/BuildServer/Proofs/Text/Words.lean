-- SUMMARY: Words and trimming: splitting forgets the blanks, and joining words by spaces is undone by splitting.
import Mathlib.Data.List.DropRight
import Mathlib.Data.List.Induction
import BuildServer.Text.Blank

/-!
# Words and trimming

The words of a text are those of its parts on both sides of any blank, so
trimming keeps them. A text that trims to a single word has just that word, and
words joined by single spaces are found again. Words are the maximal runs of
characters that are not blank, and a trimmed text is what is between the blanks
at both ends.
-/

namespace BuildServer.Text

/-! ## Splitting -/

@[simp] theorem wordChars_nil : wordChars [] = [] := rfl

theorem wordChars_append_cons (a b : List Char) {x : Char} (hx : isBlank x) :
    wordChars (a ++ x :: b) = wordChars a ++ wordChars b := by
  rw [wordChars, List.splitOnP_append_cons a b hx, List.filter_append]
  rfl

theorem wordChars_cons_blank {x : Char} (hx : isBlank x) (s : List Char) :
    wordChars (x :: s) = wordChars s :=
  wordChars_append_cons [] s hx

theorem wordChars_append_left {a : List Char} (ha : ∀ x ∈ a, isBlank x) (s : List Char) :
    wordChars (a ++ s) = wordChars s := by
  induction a with
  | nil => rfl
  | cons x a ih =>
    rw [List.cons_append, wordChars_cons_blank (ha x (by simp))]
    exact ih fun y hy => ha y (by simp [hy])

theorem wordChars_append_right {b : List Char} (hb : ∀ x ∈ b, isBlank x) (s : List Char) :
    wordChars (s ++ b) = wordChars s := by
  cases b with
  | nil => rw [List.append_nil]
  | cons x b =>
    have hnil : wordChars b = [] := by
      simpa using wordChars_append_left (fun y hy => hb y (by simp [hy])) []
    rw [wordChars_append_cons s b (hb x (by simp)), hnil, List.append_nil]

theorem wordChars_eq_singleton {s : List Char} (hne : s ≠ []) (h : ∀ x ∈ s, isBlank x = false) :
    wordChars s = [s] := by
  rw [wordChars, List.splitOnP_eq_singleton h]
  simp [hne]

theorem wordChars_ne_nil {s : List Char} {x : Char} (hx : x ∈ s) (h : isBlank x = false) :
    wordChars s ≠ [] := by
  -- Cut after the blanks at the front: what is left begins with a character of a word.
  obtain ⟨a, y, b, rfl, ha, hy⟩ : ∃ a y b, s = a ++ y :: b ∧ (∀ z ∈ a, isBlank z) ∧
      isBlank y = false := by
    have hrest : s.dropWhile isBlank ≠ [] := by
      intro hnil
      rw [List.dropWhile_eq_nil_iff] at hnil
      simp [hnil x hx] at h
    obtain ⟨y, b, hyb⟩ := List.exists_cons_of_ne_nil hrest
    refine ⟨s.takeWhile isBlank, y, b, ?_, fun z hz => List.mem_takeWhile_imp hz, ?_⟩
    · rw [← hyb, List.takeWhile_append_dropWhile]
    · simpa [hyb] using List.head_dropWhile_not isBlank hrest
  rw [wordChars_append_left ha]
  unfold wordChars
  rw [List.splitOnP_cons_eq_if_modifyHead]
  obtain ⟨w, ws, hw⟩ := List.exists_cons_of_ne_nil (List.splitOnP_ne_nil isBlank b)
  simp [hy, hw]

/-! ## Trimming -/

theorem trimChars_decomposition (s : List Char) :
    ∃ a b, s = a ++ trimChars s ++ b ∧ (∀ x ∈ a, isBlank x) ∧ ∀ x ∈ b, isBlank x := by
  refine ⟨s.takeWhile isBlank, (s.dropWhile isBlank).rtakeWhile isBlank, ?_,
    fun x hx => List.mem_takeWhile_imp hx, fun x hx => List.mem_rtakeWhile_imp hx⟩
  have htail : trimChars s ++ (s.dropWhile isBlank).rtakeWhile isBlank = s.dropWhile isBlank :=
    List.rdropWhile_append_rtakeWhile
  rw [List.append_assoc, htail, List.takeWhile_append_dropWhile]

theorem wordChars_trimChars (s : List Char) : wordChars (trimChars s) = wordChars s := by
  obtain ⟨a, b, hs, ha, hb⟩ := trimChars_decomposition s
  conv_rhs => rw [hs]
  rw [wordChars_append_right hb, wordChars_append_left ha]

/-- Trimming keeps the words of a text. -/
theorem words_trim (s : String) : words (trim s) = words s := by
  simp [words, trim, wordChars_trimChars]

theorem isBlank_head_trimChars {s : List Char} (h : trimChars s ≠ []) :
    isBlank ((trimChars s).head h) = false := by
  have hinitial : trimChars s <+: s.dropWhile isBlank := List.rdropWhile_prefix isBlank _
  have hne : s.dropWhile isBlank ≠ [] := fun hnil => h (by simpa [hnil] using hinitial)
  rw [hinitial.head h]
  exact List.head_dropWhile_not isBlank hne

theorem isBlank_getLast_trimChars {s : List Char} (h : trimChars s ≠ []) :
    isBlank ((trimChars s).getLast h) = false := by
  have hlast := List.rdropWhile_last_not isBlank (s.dropWhile isBlank) h
  rw [Bool.not_eq_true] at hlast
  exact hlast

/-- A blank after a text makes no difference to the trimmed text. -/
theorem trimChars_append_blank {x : Char} (hx : isBlank x) (s : List Char) :
    trimChars (s ++ [x]) = trimChars s := by
  unfold trimChars dropTail
  rw [List.dropWhile_append]
  split
  · next hnil =>
    rw [List.isEmpty_iff.mp hnil, List.dropWhile_cons_of_pos hx]
    rfl
  · rw [List.reverse_append, List.reverse_singleton, List.singleton_append,
      List.dropWhile_cons_of_pos hx]

theorem trimChars_toList {s : String} (h : trim s = s) : trimChars s.toList = s.toList := by
  rw [← String.toList_ofList (l := trimChars s.toList)]
  exact congrArg String.toList h

/-- A trimmed text does not begin with a blank. -/
theorem isBlank_head_of_trim {s : String} (h : trim s = s) {x : Char} {xs : List Char}
    (hs : s.toList = x :: xs) : isBlank x = false := by
  have htrim : trimChars s.toList = x :: xs := (trimChars_toList h).trans hs
  have hhead := isBlank_head_trimChars (s := s.toList) (by simp [htrim])
  simpa [htrim] using hhead

theorem isWord_iff {w : String} :
    isWord w ↔ w.toList ≠ [] ∧ ∀ x ∈ w.toList, isBlank x = false := by
  simp [isWord]

/-- A text with a single word is that word, but for the blanks around it. -/
theorem trimChars_eq_of_wordChars {s w : List Char} (h : wordChars s = [w]) : trimChars s = w := by
  rw [← wordChars_trimChars] at h
  have hne : trimChars s ≠ [] := by
    intro hnil
    simp [hnil] at h
  -- A blank inside would leave a word on each side of it.
  have hnone : ∀ x ∈ trimChars s, isBlank x = false := by
    intro x hx
    by_contra hblank
    rw [Bool.not_eq_false] at hblank
    obtain ⟨a, b, hab⟩ := List.append_of_mem hx
    have ha : wordChars a ≠ [] := by
      cases a with
      | nil =>
        have := isBlank_head_trimChars hne
        simp [hab, hblank] at this
      | cons y a =>
        have := isBlank_head_trimChars hne
        exact wordChars_ne_nil (x := y) (by simp) (by simpa [hab] using this)
    have hb : wordChars b ≠ [] := by
      have hlast := isBlank_getLast_trimChars hne
      rcases List.eq_nil_or_concat b with rfl | ⟨b, y, rfl⟩
      · simp [hab, hblank] at hlast
      · exact wordChars_ne_nil (x := y) (by simp) (by simpa [hab] using hlast)
    rw [hab, wordChars_append_cons a b hblank] at h
    have hlen := congrArg List.length h
    have := List.length_pos_iff.mpr ha
    have := List.length_pos_iff.mpr hb
    simp at hlen
    omega
  rw [wordChars_eq_singleton hne hnone] at h
  simpa using h

theorem trim_eq_iff_words {s w : String} (hw : isWord w) : trim s = w ↔ words s = [w] := by
  obtain ⟨hne, hnone⟩ := isWord_iff.mp hw
  constructor
  · intro h
    rw [← words_trim, h, words, wordChars_eq_singleton hne hnone]
    simp
  · intro h
    obtain ⟨w', hw', rfl⟩ := List.map_eq_singleton_iff.mp h
    rw [trim, trimChars_eq_of_wordChars hw']

/-! ## Joining -/

theorem isBlank_space : isBlank ' ' = true := by decide

theorem words_append_space {w : String} (hw : isWord w) (s : String) :
    words (w ++ " " ++ s) = w :: words s := by
  obtain ⟨hne, hnone⟩ := isWord_iff.mp hw
  have hlist : (w ++ " " ++ s).toList = w.toList ++ ' ' :: s.toList := by simp
  rw [words, hlist, wordChars_append_cons _ _ isBlank_space, wordChars_eq_singleton hne hnone]
  simp [words]

theorem words_eq_singleton {w : String} (hw : isWord w) : words w = [w] := by
  obtain ⟨hne, hnone⟩ := isWord_iff.mp hw
  simp [words, wordChars_eq_singleton hne hnone]

/-- Words that are joined by single spaces are found again. -/
theorem words_intercalate {ws : List String} (h : ∀ w ∈ ws, isWord w) :
    words (" ".intercalate ws) = ws := by
  induction ws with
  | nil => rfl
  | cons w ws ih =>
    have hw := h w (by simp)
    have hws := ih fun v hv => h v (by simp [hv])
    cases ws with
    | nil => rw [String.intercalate_singleton, words_eq_singleton hw]
    | cons v ws => rw [String.intercalate_cons_cons, words_append_space hw, hws]

/-- Joined texts have nothing but their own characters and the spaces between them. -/
theorem mem_intercalate {ws : List String} {x : Char} (hx : x ∈ (" ".intercalate ws).toList) :
    x = ' ' ∨ ∃ w ∈ ws, x ∈ w.toList := by
  induction ws with
  | nil => simp at hx
  | cons w ws ih =>
    cases ws with
    | nil => exact .inr ⟨w, by simp, by simpa using hx⟩
    | cons v ws =>
      rw [String.intercalate_cons_cons] at hx
      simp only [String.toList_append, List.mem_append] at hx
      rcases hx with (hx | hx) | hx
      · exact .inr ⟨w, by simp, hx⟩
      · exact .inl (by simpa using hx)
      · obtain hspace | ⟨u, hu, hx⟩ := ih hx
        · exact .inl hspace
        · exact .inr ⟨u, by simp [hu], hx⟩

/-- The only blanks in joined words are the spaces between them. -/
theorem eq_space_of_mem_intercalate {ws : List String} (h : ∀ w ∈ ws, isWord w) {x : Char}
    (hx : x ∈ (" ".intercalate ws).toList) (hblank : isBlank x) : x = ' ' := by
  obtain hspace | ⟨w, hw, hmem⟩ := mem_intercalate hx
  · exact hspace
  · rw [(isWord_iff.mp (h w hw)).2 x hmem] at hblank
    exact absurd hblank (by decide)

theorem words_eq_nil {s : String} (h : s.toList.all isBlank) : words s = [] := by
  have hnil := wordChars_append_left (by simpa using h) []
  rw [List.append_nil] at hnil
  rw [words, hnil, wordChars_nil, List.map_nil]

/-! ## Maximal runs -/

/-- The maximal runs of characters that are not blank, in order. After some blanks there is
    nothing more, or a run that only a blank or the end of the text ends. -/
inductive Runs : List Char → List (List Char) → Prop where
  | done {gap : List Char} (hgap : ∀ x ∈ gap, isBlank x) : Runs gap []
  | run {gap w rest : List Char} {ws : List (List Char)} (hgap : ∀ x ∈ gap, isBlank x)
      (hne : w ≠ []) (hw : ∀ x ∈ w, isBlank x = false) (hend : ∀ x ∈ rest.head?, isBlank x)
      (hrest : Runs rest ws) : Runs (gap ++ w ++ rest) (w :: ws)

theorem Runs.wordChars_eq {s : List Char} {ws : List (List Char)} (h : Runs s ws) :
    wordChars s = ws := by
  induction h with
  | done hgap => simpa using wordChars_append_right hgap []
  | @run gap w rest ws hgap hne hw hend _ ih =>
    rw [List.append_assoc, wordChars_append_left hgap]
    cases rest with
    | nil => rw [List.append_nil, wordChars_eq_singleton hne hw, ← ih, wordChars_nil]
    | cons x rest =>
      have hx := hend x rfl
      rw [wordChars_append_cons w rest hx, wordChars_eq_singleton hne hw, ← ih,
        wordChars_cons_blank hx, List.singleton_append]

theorem Runs.cons_blank {s : List Char} {ws : List (List Char)} (h : Runs s ws) {x : Char}
    (hx : isBlank x) : Runs (x :: s) ws := by
  cases h with
  | done hgap => exact .done (List.forall_mem_cons.mpr ⟨hx, hgap⟩)
  | run hgap hne hw hend hrest =>
    exact .run (List.forall_mem_cons.mpr ⟨hx, hgap⟩) hne hw hend hrest

/-- A run at the very beginning. -/
theorem Runs.first {w rest : List Char} {ws : List (List Char)} (hne : w ≠ [])
    (hw : ∀ x ∈ w, isBlank x = false) (hend : ∀ x ∈ rest.head?, isBlank x)
    (hrest : Runs rest ws) : Runs (w ++ rest) (w :: ws) := by
  simpa using Runs.run (List.forall_mem_nil _) hne hw hend hrest

/-- A character that is not blank begins a run, or it comes to the front of the first one. -/
theorem Runs.exists_cons {s : List Char} {ws : List (List Char)} (h : Runs s ws) {x : Char}
    (hx : isBlank x = false) : ∃ ws, Runs (x :: s) ws := by
  have alone : (∀ y ∈ s.head?, isBlank y) → ∃ ws, Runs (x :: s) ws := fun hend =>
    ⟨_, .first (w := [x]) (by simp) (by simpa using hx) hend h⟩
  cases h with
  | done hgap => exact alone fun y hy => hgap y (List.mem_of_mem_head? hy)
  | @run gap w rest ws hgap hne hw hend hrest =>
    cases gap with
    | nil =>
      exact ⟨_, .first (w := x :: w) (by simp) (List.forall_mem_cons.mpr ⟨hx, hw⟩) hend hrest⟩
    | cons y gap =>
      refine alone fun z hz => ?_
      obtain rfl : y = z := Option.some.inj hz
      exact hgap y List.mem_cons_self

theorem exists_runs (s : List Char) : ∃ ws, Runs s ws := by
  induction s with
  | nil => exact ⟨[], .done (by simp)⟩
  | cons x s ih =>
    obtain ⟨ws, hws⟩ := ih
    cases hx : isBlank x with
    | true => exact ⟨ws, hws.cons_blank hx⟩
    | false => exact hws.exists_cons hx

theorem runs_iff {s : List Char} {ws : List (List Char)} : Runs s ws ↔ wordChars s = ws := by
  refine ⟨Runs.wordChars_eq, ?_⟩
  rintro rfl
  obtain ⟨ws, hws⟩ := exists_runs s
  rwa [hws.wordChars_eq]

theorem Runs.isWord {s : List Char} {ws : List (List Char)} (h : Runs s ws) :
    ∀ w ∈ ws, isWord (String.ofList w) := by
  induction h with
  | done => simp
  | run _ hne hw _ _ ih =>
    refine List.forall_mem_cons.mpr ⟨?_, ih⟩
    rw [isWord_iff, String.toList_ofList]
    exact ⟨hne, hw⟩

theorem isWord_of_mem_words {s w : String} (h : w ∈ words s) : isWord w := by
  obtain ⟨v, hv, rfl⟩ := List.mem_map.mp h
  exact (runs_iff.mpr rfl).isWord v hv

/-- The words of a text are its maximal runs of characters that are not blank. -/
def AreWords (s : String) (ws : List String) : Prop :=
  Runs s.toList (ws.map String.toList)

theorem areWords_iff {s : String} {ws : List String} : AreWords s ws ↔ ws = words s := by
  rw [AreWords, runs_iff, words]
  constructor
  · intro h
    simp [h, Function.comp_def]
  · rintro rfl
    simp [Function.comp_def]

/-! ## Texts without blanks around them -/

/-- The text neither begins nor ends with a blank. -/
structure Bare (s : String) : Prop where
  head : ∀ x ∈ s.toList.head?, isBlank x = false
  last : ∀ x ∈ s.toList.getLast?, isBlank x = false

/-- A text is this one with blanks around it. -/
structure TrimsTo (s t : String) : Prop where
  bare : Bare t
  around : ∃ a b : List Char, s.toList = a ++ t.toList ++ b ∧ (∀ x ∈ a, isBlank x) ∧
    ∀ x ∈ b, isBlank x

theorem bare_trim (s : String) : Bare (trim s) := by
  have htrim : (trim s).toList = trimChars s.toList := String.toList_ofList
  by_cases hne : trimChars s.toList = []
  · constructor <;> simp [htrim, hne]
  · constructor <;> rw [htrim]
    · rw [List.head?_eq_some_head hne]
      rintro _ ⟨⟩
      exact isBlank_head_trimChars hne
    · rw [List.getLast?_eq_some_getLast hne]
      rintro _ ⟨⟩
      exact isBlank_getLast_trimChars hne

theorem trimChars_append_left {a : List Char} (ha : ∀ x ∈ a, isBlank x) (s : List Char) :
    trimChars (a ++ s) = trimChars s := by
  rw [trimChars, List.dropWhile_append_of_pos ha, ← trimChars]

theorem trimChars_append_right {b : List Char} (hb : ∀ x ∈ b, isBlank x) (s : List Char) :
    trimChars (s ++ b) = trimChars s := by
  induction b using List.reverseRecOn with
  | nil => rw [List.append_nil]
  | append_singleton b x ih =>
    rw [← List.append_assoc, trimChars_append_blank (hb x (by simp)),
      ih fun y hy => hb y (by simp [hy])]

theorem Bare.trimChars_toList {s : String} (h : Bare s) : trimChars s.toList = s.toList := by
  obtain ⟨hhead, hlast⟩ := h
  have hfront : s.toList.dropWhile isBlank = s.toList := by
    cases hs : s.toList with
    | nil => rfl
    | cons x xs => exact List.dropWhile_cons_of_neg (by simp [hhead x (by simp [hs])])
  rw [trimChars, hfront]
  refine List.rdropWhile_eq_self_iff.mpr fun hne => ?_
  simp [hlast _ (List.getLast?_eq_some_getLast hne)]

theorem Bare.trim_eq {s : String} (h : Bare s) : trim s = s := by
  rw [trim, h.trimChars_toList, String.ofList_toList]

theorem bare_of_isWord {w : String} (hw : isWord w) : Bare w := by
  have hnone := (isWord_iff.mp hw).2
  exact ⟨fun x hx => hnone x (List.mem_of_mem_head? hx),
    fun x hx => hnone x (List.mem_of_mem_getLast? hx)⟩

/-- Words that are joined by spaces have no blanks around them. -/
theorem bare_intercalate {ws : List String} (h : ∀ w ∈ ws, isWord w) :
    Bare (" ".intercalate ws) := by
  induction ws with
  | nil => constructor <;> simp
  | cons w ws ih =>
    have hw := h w (by simp)
    cases ws with
    | nil =>
      rw [String.intercalate_singleton]
      exact bare_of_isWord hw
    | cons v ws =>
      have hrest : ∀ u ∈ v :: ws, isWord u := fun u hu => h u (List.mem_cons_of_mem w hu)
      have hne : (" ".intercalate (v :: ws)).toList ≠ [] := by
        intro hnil
        have hwords := words_intercalate hrest
        rw [words, hnil] at hwords
        cases hwords
      have hjoined := ih hrest
      rw [String.intercalate_cons_cons]
      generalize " ".intercalate (v :: ws) = joined at hne hjoined
      constructor
      · rw [String.toList_append, String.toList_append, List.append_assoc,
          List.head?_append_of_ne_nil _ (isWord_iff.mp hw).1]
        exact (bare_of_isWord hw).head
      · rw [String.toList_append, List.getLast?_append_of_ne_nil _ hne]
        exact hjoined.last

theorem trimsTo_iff {s t : String} : TrimsTo s t ↔ t = trim s := by
  constructor
  · rintro ⟨hbare, a, b, hs, ha, hb⟩
    rw [trim, hs, trimChars_append_right hb, trimChars_append_left ha, hbare.trimChars_toList,
      String.ofList_toList]
  · rintro rfl
    obtain ⟨a, b, hs, ha, hb⟩ := trimChars_decomposition s.toList
    exact ⟨bare_trim s, a, b, by rwa [trim, String.toList_ofList], ha, hb⟩

end BuildServer.Text
