-- SUMMARY: Words in single quotes are read back, and which words are read back without quotes.
import BuildServer.Proofs.Text.Words
import BuildServer.Text.Quoted

/-!
# Quoted words

Words in single quotes that are joined by spaces are found again, whatever they
contain. Without quotes this is so for the words in which nothing separates,
quotes, escapes or begins a comment, and for no others: reading never adds a
character, so that a line whose words all come out as they are cannot have lost
one.
-/

namespace BuildServer.Text

namespace Quoted

/-! ## Words in single quotes -/

/-- A character as it is written in single quotes. A quote has to stand outside of them. -/
def enclosed (c : Char) : List Char :=
  if c = '\'' then ['\'', '\\', '\'', '\''] else [c]

theorem readFrom_enclosed (w word rest : List Char) :
    readFrom .single word (w.flatMap enclosed ++ rest) =
      readFrom .single (w.reverse ++ word) rest := by
  induction w generalizing word with
  | nil => rfl
  | cons c w ih =>
    have hstep : readFrom .single word (enclosed c ++ (w.flatMap enclosed ++ rest)) =
        readFrom .single (c :: word) (w.flatMap enclosed ++ rest) := by
      by_cases h : c = '\'' <;> simp [enclosed, readFrom, h]
    rw [List.flatMap_cons, List.append_assoc, hstep, ih]
    simp

/-- A word in single quotes. -/
def quote (w : List Char) : List Char :=
  '\'' :: w.flatMap enclosed ++ ['\'']

theorem readFrom_quote (w rest : List Char) :
    readFrom .between [] (quote w ++ rest) = readFrom .word w.reverse rest := by
  have hlist : quote w ++ rest = '\'' :: (w.flatMap enclosed ++ '\'' :: rest) := by
    simp [quote]
  rw [hlist, readFrom, if_pos rfl, readFrom_enclosed, List.append_nil, readFrom, if_pos rfl]

theorem readFrom_word_space (word rest : List Char) :
    readFrom .word word (' ' :: rest) =
      (readFrom .between [] rest).map (word.reverse :: ·) := by
  simp [readFrom, isSeparator]

theorem readFrom_quotes (ws : List (List Char)) :
    readFrom .between [] ([' '].intercalate (ws.map quote)) = some ws := by
  induction ws with
  | nil => rfl
  | cons w ws ih =>
    cases ws with
    | nil =>
      have hquote := readFrom_quote w []
      rw [List.append_nil] at hquote
      rw [List.map_singleton, List.intercalate_singleton, hquote]
      simp [readFrom]
    | cons v ws =>
      rw [List.map_cons, List.map_cons, List.intercalate_cons_cons, List.append_assoc,
        readFrom_quote, List.singleton_append, readFrom_word_space, ← List.map_cons, ih]
      simp

/-! ## Nothing is added -/

/-- Characters that begin or end quotes or keep the next character. -/
def isQuoting (c : Char) : Bool := c == '\'' || c == '"' || c == '\\'

/-- How many characters of a text are not separators. -/
def ink (cs : List Char) : Nat :=
  cs.countP fun c => !isSeparator c

@[simp] theorem ink_nil : ink [] = 0 := rfl

@[simp] theorem ink_append (cs ds : List Char) : ink (cs ++ ds) = ink cs + ink ds :=
  List.countP_append

@[simp] theorem ink_reverse (cs : List Char) : ink cs.reverse = ink cs :=
  List.countP_reverse

theorem ink_cons (c : Char) (cs : List Char) :
    ink (c :: cs) = ink cs + (!isSeparator c).toNat := by
  rw [ink, List.countP_cons]
  cases isSeparator c <;> rfl

/-- A backslash that waits for its character. -/
def Mode.pending : Mode → Nat
  | .escapeBetween | .escapeWord | .escapeDouble => 1
  | _ => 0

theorem ink_flatten_le {m : Mode} {word cs : List Char} {out : List (List Char)}
    (h : readFrom m word cs = some out) :
    ink out.flatten ≤ ink word + ink cs + m.pending := by
  have hbackslash : (!isSeparator '\\').toNat = 1 := rfl
  fun_induction readFrom m word cs generalizing out with
  | case5 | case6 | case7 => cases h
  | case1 | case2 | case3 | case4 | case8 =>
    cases h
    simp [ink_cons, Mode.pending, hbackslash]
  | case20 word c cs _ _ _ _ ih =>
    obtain ⟨more, hmore, rfl⟩ := Option.map_eq_some_iff.mp h
    have hle := ih hmore
    simp only [List.flatten_cons, ink_append, ink_reverse, ink_nil, ink_cons, Mode.pending] at hle ⊢
    omega
  | _ =>
    rename_i ih
    have hle := ih h
    simp only [ink_cons, hbackslash, Mode.pending] at hle ⊢
    omega

/-! ## Nothing is lost -/

/-- No character quotes or escapes, but the last one may be a backslash. -/
def Calm (cs : List Char) : Prop :=
  ∀ before c after, cs = before ++ c :: after → isQuoting c → c = '\\' ∧ after = []

/-- A word that comes out of reading without quotes. -/
structure Shown (w : List Char) : Prop where
  ne_nil : w ≠ []
  start : w.head? ≠ some '#'
  free : ∀ c ∈ w, isSeparator c = false

theorem calm_nil : Calm [] := by
  intro before c after heq
  simp at heq

theorem calm_cons {c : Char} {cs : List Char} (hc : isQuoting c → c = '\\' ∧ cs = [])
    (h : Calm cs) : Calm (c :: cs) := by
  intro before d after heq
  obtain ⟨rfl, hcons⟩ | ⟨before, rfl, hcs⟩ := List.cons_eq_append_iff.mp heq
  · obtain ⟨rfl, rfl⟩ := List.cons.inj hcons
    exact hc
  · exact h before d after hcs

theorem Calm.suffix {before cs : List Char} (h : Calm (before ++ cs)) : Calm cs := by
  intro front c after hcs
  exact h (before ++ front) c after (by rw [hcs, List.append_assoc])

/-- Only at the end can there be a backslash. -/
theorem Calm.quiet {cs after : List Char} (h : Calm (cs ++ after)) (hafter : after ≠ []) :
    ∀ c ∈ cs, isQuoting c = false := by
  intro c hc
  obtain ⟨front, back, rfl⟩ := List.append_of_mem hc
  rw [Bool.eq_false_iff]
  intro hquoting
  have hnil := (h front c (back ++ after) (by simp) hquoting).2
  exact hafter (List.append_eq_nil_iff.mp hnil).2

/-- A backslash outside of quotes is lost, unless it is the last character. -/
theorem ink_le_of_escape {m : Mode} (hm : m = .escapeBetween ∨ m = .escapeWord) {c : Char}
    {word cs : List Char} {out : List (List Char)} (h : readFrom m word (c :: cs) = some out) :
    ink out.flatten ≤ ink word + ink (c :: cs) := by
  obtain rfl | rfl := hm <;>
    rw [readFrom] at h <;>
    split at h <;>
    · have hle := ink_flatten_le h
      simp only [ink_cons, Mode.pending] at hle ⊢
      omega

/-- Outside of quotes, a character that quotes or escapes is lost. -/
theorem last_of_isQuoting {m : Mode} (hm : m = .between ∨ m = .word) {c : Char}
    {word cs : List Char} {out : List (List Char)} (h : readFrom m word (c :: cs) = some out)
    (hink : ink out.flatten = ink word + ink (c :: cs)) (hc : isQuoting c) :
    c = '\\' ∧ cs = [] := by
  have hquote {m' : Mode} (hm' : m' = .single ∨ m' = .double) (hsep : isSeparator c = false)
      (h' : readFrom m' word cs = some out) : False := by
    have hle := ink_flatten_le h'
    rw [hink, ink_cons, hsep] at hle
    have hpending : m'.pending = 0 := by obtain rfl | rfl := hm' <;> rfl
    simp only [hpending, Bool.not_false, Bool.toNat_true] at hle
    omega
  simp only [isQuoting, Bool.or_eq_true, beq_iff_eq, or_assoc] at hc
  obtain rfl | rfl | rfl := hc
  · obtain rfl | rfl := hm <;> exact (hquote (.inl rfl) rfl (by simpa [readFrom] using h)).elim
  · obtain rfl | rfl := hm <;> exact (hquote (.inr rfl) rfl (by simpa [readFrom] using h)).elim
  · refine ⟨rfl, ?_⟩
    cases cs with
    | nil => rfl
    | cons d cs =>
      have hescape {m' : Mode} (hm' : m' = .escapeBetween ∨ m' = .escapeWord)
          (h' : readFrom m' word (d :: cs) = some out) : False := by
        have hle := ink_le_of_escape hm' h'
        rw [hink, ink_cons '\\'] at hle
        have hbackslash : (!isSeparator '\\').toNat = 1 := rfl
        omega
      obtain rfl | rfl := hm
      · exact (hescape (.inl rfl) (by rwa [readFrom] at h)).elim
      · exact (hescape (.inr rfl) (by rwa [readFrom] at h)).elim

theorem readFrom_between_cons {c : Char} (hc : isQuoting c = false) (word cs : List Char) :
    readFrom .between word (c :: cs) =
      if isSeparator c then readFrom .between word cs
      else if c = '#' then readFrom .comment word cs
      else readFrom .word (c :: word) cs := by
  simp only [isQuoting, Bool.or_eq_false_iff, beq_eq_false_iff_ne] at hc
  simp [readFrom, hc]

theorem readFrom_word_cons {c : Char} (hc : isQuoting c = false) (word cs : List Char) :
    readFrom .word word (c :: cs) =
      if isSeparator c then (readFrom .between [] cs).map (word.reverse :: ·)
      else readFrom .word (c :: word) cs := by
  simp only [isQuoting, Bool.or_eq_false_iff, beq_eq_false_iff_ne] at hc
  simp [readFrom, hc]

/-- If reading from between two words loses nothing but separators, there is nothing that
    quotes or escapes, and all words are shown. -/
def FaithfulBetween (cs : List Char) : Prop :=
  ∀ out, readFrom .between [] cs = some out → ink out.flatten = ink cs →
    Calm cs ∧ ∀ w ∈ out, Shown w

/-- The same for reading from within a word, which may go on. -/
def FaithfulWord (cs : List Char) : Prop :=
  ∀ word out, readFrom .word word cs = some out → ink out.flatten = ink word + ink cs →
    Calm cs ∧ ∃ rest more, out = (word.reverse ++ rest) :: more ∧
      (∀ c ∈ rest, isSeparator c = false) ∧ ∀ w ∈ more, Shown w

theorem faithfulBetween_cons {cs : List Char} (hbetween : FaithfulBetween cs)
    (hword : FaithfulWord cs) (c : Char) : FaithfulBetween (c :: cs) := by
  intro out h hink
  have hlast := last_of_isQuoting (.inl rfl) h (by simpa using hink)
  cases hc : isQuoting c with
  | true =>
    obtain ⟨rfl, rfl⟩ := hlast hc
    cases h
    refine ⟨calm_cons hlast calm_nil, ?_⟩
    simp only [List.mem_singleton, forall_eq]
    exact ⟨by simp, by simp, by simp [isSeparator]⟩
  | false =>
    rw [readFrom_between_cons hc] at h
    rw [ink_cons] at hink
    split at h
    · next hsep =>
      obtain ⟨hcalm, hout⟩ := hbetween out h (by simpa [hsep] using hink)
      exact ⟨calm_cons hlast hcalm, hout⟩
    · next hsep =>
      rw [Bool.not_eq_true] at hsep
      split at h
      · -- A comment would be lost.
        have hle := ink_flatten_le h
        simp only [hsep, ink_nil, Mode.pending, Bool.not_false, Bool.toNat_true] at hle hink
        omega
      · next hhash =>
        obtain ⟨hcalm, rest, more, rfl, hrest, hmore⟩ :=
          hword [c] out h (by simp [ink_cons, hsep, hink]; omega)
        refine ⟨calm_cons hlast hcalm, ?_⟩
        simp only [List.mem_cons, forall_eq_or_imp]
        refine ⟨⟨by simp, by simpa using hhash, ?_⟩, hmore⟩
        simpa [hsep] using hrest

theorem faithfulWord_cons {cs : List Char} (hbetween : FaithfulBetween cs)
    (hword : FaithfulWord cs) (c : Char) : FaithfulWord (c :: cs) := by
  intro word out h hink
  have hlast := last_of_isQuoting (.inr rfl) h hink
  cases hc : isQuoting c with
  | true =>
    obtain ⟨rfl, rfl⟩ := hlast hc
    cases h
    exact ⟨calm_cons hlast calm_nil, ['\\'], [], by simp, by simp [isSeparator], by simp⟩
  | false =>
    rw [readFrom_word_cons hc] at h
    rw [ink_cons] at hink
    split at h
    · next hsep =>
      obtain ⟨more, hmore, rfl⟩ := Option.map_eq_some_iff.mp h
      obtain ⟨hcalm, hshown⟩ := hbetween more hmore (by simpa [hsep] using hink)
      exact ⟨calm_cons hlast hcalm, [], more, by simp, by simp, hshown⟩
    · next hsep =>
      rw [Bool.not_eq_true] at hsep
      obtain ⟨hcalm, rest, more, rfl, hrest, hmore⟩ :=
        hword (c :: word) out h (by rw [hink, ink_cons]; omega)
      refine ⟨calm_cons hlast hcalm, c :: rest, more, by simp, ?_, hmore⟩
      simpa [hsep] using hrest

theorem faithful (cs : List Char) : FaithfulBetween cs ∧ FaithfulWord cs := by
  induction cs with
  | nil =>
    constructor
    · intro out h _
      cases h
      exact ⟨calm_nil, by simp⟩
    · intro word out h _
      cases h
      exact ⟨calm_nil, [], [], by simp⟩
  | cons c cs ih => exact ⟨faithfulBetween_cons ih.1 ih.2 c, faithfulWord_cons ih.1 ih.2 c⟩

end Quoted

open Quoted

/-! ## Words without quotes -/

/-- A text in which nothing separates, quotes, escapes or begins a comment. -/
structure IsLiteral (w : String) : Prop where
  free : ∀ c ∈ w.toList, isSeparator c = false ∧ isQuoting c = false
  start : w.toList.head? ≠ some '#'

theorem isLiteral_iff {w : String} : IsLiteral w ↔
    (w.toList.all fun c => !isSeparator c && !isQuoting c) ∧ w.toList.head? ≠ some '#' := by
  constructor
  · rintro ⟨hfree, hstart⟩
    exact ⟨by simpa using hfree, hstart⟩
  · rintro ⟨hfree, hstart⟩
    exact ⟨by simpa using hfree, hstart⟩

instance (w : String) : Decidable (IsLiteral w) := decidable_of_iff _ isLiteral_iff.symm

/-- Words that stand for themselves: they are literal, but the last one may end in a
    backslash, which has nothing to escape. -/
inductive Stand : List String → Prop where
  | nil : Stand []
  | escape {w : String} (h : IsLiteral w) : Stand [w ++ "\\"]
  | cons {w : String} {ws : List String} (hne : w ≠ "") (h : IsLiteral w) (hws : Stand ws) :
      Stand (w :: ws)

theorem stand_cons_iff {w : String} {ws : List String} : Stand (w :: ws) ↔
    (w ≠ "" ∧ IsLiteral w) ∧ Stand ws ∨ ws = [] ∧ ∃ v, IsLiteral v ∧ w = v ++ "\\" := by
  constructor
  · intro h
    cases h with
    | @escape v h => exact .inr ⟨rfl, v, h, rfl⟩
    | cons hne h hws => exact .inl ⟨⟨hne, h⟩, hws⟩
  · rintro (⟨⟨hne, h⟩, hws⟩ | ⟨rfl, v, h, rfl⟩)
    · exact .cons hne h hws
    · exact .escape h

theorem readFrom_literal {w : List Char}
    (h : ∀ c ∈ w, isSeparator c = false ∧ isQuoting c = false) (word rest : List Char) :
    readFrom .word word (w ++ rest) = readFrom .word (w.reverse ++ word) rest := by
  induction w generalizing word with
  | nil => rfl
  | cons c w ih =>
    obtain ⟨hsep, hquoting⟩ := h c (by simp)
    rw [List.cons_append, readFrom_word_cons hquoting, hsep, if_neg Bool.false_ne_true,
      ih fun d hd => h d (by simp [hd])]
    simp

theorem readFrom_isLiteral {w : String} (h : IsLiteral w) (hne : w ≠ "") (rest : List Char) :
    readFrom .between [] (w.toList ++ rest) = readFrom .word w.toList.reverse rest := by
  obtain ⟨c, cs, hcons⟩ := List.exists_cons_of_ne_nil (l := w.toList) (by simpa using hne)
  obtain ⟨hfree, hstart⟩ := h
  rw [hcons] at hfree hstart ⊢
  obtain ⟨hsep, hquoting⟩ := hfree c (by simp)
  have hhash : c ≠ '#' := by simpa using hstart
  rw [List.cons_append, readFrom_between_cons hquoting, hsep, if_neg Bool.false_ne_true,
    if_neg hhash, readFrom_literal fun d hd => hfree d (by simp [hd])]
  simp

theorem readFrom_escape {w : String} (h : IsLiteral w) :
    readFrom .between [] (w ++ "\\").toList = some [(w ++ "\\").toList] := by
  by_cases hne : w = ""
  · subst hne
    rfl
  · rw [String.toList_append, readFrom_isLiteral h hne]
    simp [readFrom]

/-- A literal word is read off, and reading goes on with the words after it. -/
theorem readFrom_intercalate_cons {w : String} (h : IsLiteral w) (hne : w ≠ "")
    (ws : List (List Char)) :
    readFrom .between [] ([' '].intercalate (w.toList :: ws)) =
      (readFrom .between [] ([' '].intercalate ws)).map (w.toList :: ·) := by
  cases ws with
  | nil =>
    have hread := readFrom_isLiteral h hne []
    rw [List.append_nil] at hread
    simp [hread, readFrom]
  | cons v ws =>
    rw [List.intercalate_cons_cons, List.append_assoc, readFrom_isLiteral h hne,
      List.singleton_append, readFrom_word_space]
    simp

theorem readFrom_stand {ws : List String} (h : Stand ws) :
    readFrom .between [] ([' '].intercalate (ws.map String.toList)) =
      some (ws.map String.toList) := by
  induction h with
  | nil => rfl
  | escape h => simpa using readFrom_escape h
  | cons hne h hws ih =>
    rw [List.map_cons, readFrom_intercalate_cons h hne, ih]
    rfl

theorem splitQuoted_intercalate (ws : List String) :
    splitQuoted (" ".intercalate ws) =
      (readFrom .between [] ([' '].intercalate (ws.map String.toList))).map fun vs =>
        vs.map String.ofList := by
  rw [splitQuoted, String.toList_intercalate]
  rfl

theorem splitQuoted_cons {w : String} (h : IsLiteral w) (hne : w ≠ "") (ws : List String) :
    splitQuoted (" ".intercalate (w :: ws)) =
      (splitQuoted (" ".intercalate ws)).map (w :: ·) := by
  rw [splitQuoted_intercalate, splitQuoted_intercalate, List.map_cons,
    readFrom_intercalate_cons h hne]
  simp [Function.comp_def]

theorem splitQuoted_eq_some_iff_readFrom {ws : List String} :
    splitQuoted (" ".intercalate ws) = some ws ↔
      readFrom .between [] ([' '].intercalate (ws.map String.toList)) =
        some (ws.map String.toList) := by
  rw [splitQuoted_intercalate]
  constructor
  · intro h
    obtain ⟨vs, hvs, hws⟩ := Option.map_eq_some_iff.mp h
    rw [hvs, ← hws]
    simp [Function.comp_def]
  · intro h
    rw [h]
    simp [Function.comp_def]

theorem ink_intercalate (ws : List (List Char)) : ink ([' '].intercalate ws) = ink ws.flatten := by
  induction ws with
  | nil => rfl
  | cons w ws ih =>
    cases ws with
    | nil => simp
    | cons v ws =>
      have hspace : ink [' '] = 0 := rfl
      rw [List.intercalate_cons_cons, ink_append, ink_append, ih, hspace, Nat.add_zero,
        List.flatten_cons (l := w), ink_append]

theorem IsLiteral.of_shown {w : String} (h : Shown w.toList)
    (hquoting : ∀ c ∈ w.toList, isQuoting c = false) : IsLiteral w :=
  ⟨fun c hc => ⟨h.free c hc, hquoting c hc⟩, h.start⟩

theorem Stand.of_shown {w : String} (h : Shown w.toList) (hcalm : Calm w.toList) : Stand [w] := by
  have hne : w ≠ "" := by simpa using h.ne_nil
  by_cases hquoting : ∀ c ∈ w.toList, isQuoting c = false
  · exact .cons hne (.of_shown h hquoting) .nil
  · obtain ⟨c, hc⟩ := Classical.not_forall.mp hquoting
    rw [Classical.not_imp, Bool.not_eq_false] at hc
    obtain ⟨hmem, hc⟩ := hc
    obtain ⟨before, after, hsplit⟩ := List.append_of_mem hmem
    obtain ⟨rfl, rfl⟩ := hcalm before c after hsplit hc
    have hw : w = String.ofList before ++ "\\" := by
      rw [← String.toList_inj, hsplit]
      simp
    have hliteral : IsLiteral (String.ofList before) := by
      rw [hsplit] at h hcalm
      refine ⟨fun d hd => ?_, ?_⟩
      · rw [String.toList_ofList] at hd
        exact ⟨h.free d (by simp [hd]), hcalm.quiet (by simp) d hd⟩
      · have hstart := h.start
        cases before with
        | nil => simp
        | cons x before => simpa using hstart
    rw [hw]
    exact .escape hliteral

theorem stand_of_calm {ws : List String} (hcalm : Calm ([' '].intercalate (ws.map String.toList)))
    (hshown : ∀ w ∈ ws, Shown w.toList) : Stand ws := by
  induction ws with
  | nil => exact .nil
  | cons w ws ih =>
    have hw := hshown w (by simp)
    cases ws with
    | nil => exact .of_shown hw (by simpa using hcalm)
    | cons v ws =>
      rw [List.map_cons, List.map_cons, List.intercalate_cons_cons, List.append_assoc,
        ← List.map_cons] at hcalm
      have hliteral : IsLiteral w := .of_shown hw (hcalm.quiet (by simp))
      refine .cons (by simpa using hw.ne_nil) hliteral ?_
      exact ih hcalm.suffix.suffix fun u hu => hshown u (by simp [hu])

/-- Words that are joined by single spaces are read back if and only if they stand for
    themselves. -/
theorem splitQuoted_eq_iff_stand {ws : List String} :
    splitQuoted (" ".intercalate ws) = some ws ↔ Stand ws := by
  rw [splitQuoted_eq_some_iff_readFrom]
  constructor
  · intro h
    obtain ⟨hcalm, hshown⟩ := (faithful _).1 _ h (ink_intercalate _).symm
    exact stand_of_calm hcalm fun w hw => hshown _ (List.mem_map_of_mem hw)
  · exact readFrom_stand

/-! ## Words in quotes -/

/-- A word in single quotes. -/
def quoted (w : String) : String :=
  String.ofList (quote w.toList)

/-- Quoted words that are joined by single spaces are read back. -/
theorem splitQuoted_quoted (ws : List String) :
    splitQuoted (" ".intercalate (ws.map quoted)) = some ws := by
  have hread := readFrom_quotes (ws.map String.toList)
  have hlist : (ws.map quoted).map String.toList = (ws.map String.toList).map quote := by
    simp [quoted, Function.comp_def]
  rw [splitQuoted_intercalate, hlist, hread]
  simp [Function.comp_def]

theorem mem_enclosed {c x : Char} (hx : x ∈ enclosed c) : x = '\'' ∨ x = '\\' ∨ x = c := by
  unfold enclosed at hx
  split at hx
  · have hquote : x = '\'' ∨ x = '\\' ∨ x = '\'' ∨ x = '\'' := by simpa using hx
    obtain hx | hx | hx | hx := hquote
    · exact .inl hx
    · exact .inr (.inl hx)
    · exact .inl hx
    · exact .inl hx
  · exact .inr (.inr (by simpa using hx))

/-- What a quoted word is written with. -/
theorem mem_quoted {w : String} {x : Char} (hx : x ∈ (quoted w).toList) :
    x = '\'' ∨ x = '\\' ∨ x ∈ w.toList := by
  simp only [quoted, quote, String.toList_ofList, List.cons_append, List.mem_cons, List.mem_append,
    List.mem_flatMap, List.not_mem_nil, or_false] at hx
  obtain hx | ⟨c, hc, hx⟩ | hx := hx
  · exact .inl hx
  · obtain hx | hx | rfl := mem_enclosed hx
    · exact .inl hx
    · exact .inr (.inl hx)
    · exact .inr (.inr hc)
  · exact .inl hx

/-- Quoted words that are joined begin with a quote and end with one. -/
theorem quoted_ends (w : String) (ws : List String) :
    (" ".intercalate ((w :: ws).map quoted)).toList.head? = some '\'' ∧
      (" ".intercalate ((w :: ws).map quoted)).toList.getLast? = some '\'' := by
  induction ws generalizing w with
  | nil =>
    rw [List.map_singleton, String.intercalate_singleton, quoted, String.toList_ofList]
    exact ⟨rfl, List.getLast?_concat⟩
  | cons v ws ih =>
    obtain ⟨-, hlast⟩ := ih v
    have hne : (" ".intercalate ((v :: ws).map quoted)).toList ≠ [] := by
      intro hnil
      rw [hnil] at hlast
      cases hlast
    rw [List.map_cons, List.map_cons, String.intercalate_cons_cons, ← List.map_cons]
    constructor
    · simp [quoted, quote]
    · rw [String.toList_append, List.getLast?_append_of_ne_nil _ hne, hlast]

end BuildServer.Text
