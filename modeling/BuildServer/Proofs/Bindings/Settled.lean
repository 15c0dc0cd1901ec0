-- SUMMARY: If values bring no signs along, expansion leaves nothing that reads like a token, and expanding again changes nothing.
import BuildServer.Proofs.Bindings.Lookup
import Mathlib.Data.List.Infix

/-!
# Settled texts

A text is settled if nothing in it reads like a token. An `@` that expansion keeps
begins no token, but what comes after it is not what came after it before: tokens
have become their values, and these can be empty. It still begins no token, because
the character that no name has is there before the next `@`, as literal text. This
needs that no value has an `@` of its own, and that no two `@` stand side by side:
in `@@A@B@` with an empty value for `A`, a token would come about.
-/

namespace BuildServer.Bindings

/-- Nothing reads like a token: no two `@` have only characters of names between them. -/
def Settled (text : List Char) : Prop :=
  ∀ name, (∀ c ∈ name, isNameChar c) → ¬ '@' :: name ++ ['@'] <:+: text

/-- Names read like names, and values have no `@`. -/
structure Tame (b : Bindings) : Prop where
  name_chars : ∀ {name value}, b.get? name = some value → ∀ c ∈ name.toList, isNameChar c
  value_no_sign : ∀ {name value}, b.get? name = some value → '@' ∉ value.toList

/-! ## Signs that nothing closes -/

/-- An `@` that is followed by this text has a character that no name has before the next
    `@`, if there is a next one. -/
def Blocked (following : List Char) : Prop :=
  ∀ name rest, following = name ++ '@' :: rest → ¬ ∀ c ∈ name, isNameChar c

/-- This is so for each `@` of a text, if the text is followed by that one. -/
def BlockedIn (text following : List Char) : Prop :=
  ∀ before after, text = before ++ '@' :: after → Blocked (after ++ following)

variable {b : Bindings} {text following rest : List Char}

theorem sign_not_mem_of_nameChars {name : List Char} (h : ∀ c ∈ name, isNameChar c) :
    '@' ∉ name := by
  intro hmem
  exact absurd (h _ hmem) (by decide)

theorem blocked_of_inert (h : b.Inert following) (hhead : following.head? ≠ some '@') :
    Blocked following := by
  intro name rest heq hchars
  obtain rfl | ⟨-, hodd⟩ := h name rest heq (sign_not_mem_of_nameChars hchars)
  · exact hhead (by rw [heq]; rfl)
  · exact hodd hchars

theorem Tame.inert (hb : b.Tame) (h : Blocked following) : b.Inert following := by
  intro name rest heq _
  have hodd := h name rest heq
  refine .inr ⟨?_, hodd⟩
  cases hbound : b.get? (String.ofList name) with
  | none => rfl
  | some value => exact absurd (by simpa using hb.name_chars hbound) hodd

/-- What comes behind the next `@` does not matter, and neither does that `@`. -/
theorem Blocked.replace {between later : List Char} (h : Blocked (between ++ '@' :: later))
    (rest : List Char) : Blocked (between ++ rest) := by
  intro name rest' heq hchars
  obtain ⟨more, rfl, -⟩ | ⟨more, rfl, hrest⟩ := List.append_eq_append_iff.mp heq
  · exact h between later rfl fun c hc => hchars c (List.mem_append_left _ hc)
  · cases more with
    | nil => exact h name later (by rw [List.append_nil]) hchars
    | cons c more =>
      obtain ⟨rfl, -⟩ := List.cons.inj hrest
      exact h name (more ++ '@' :: later) (by simp) hchars

theorem blockedIn_of_no_sign (h : '@' ∉ text) : BlockedIn text following := by
  rintro before after rfl
  simp at h

theorem BlockedIn.append {later : List Char} (h : BlockedIn text (later ++ following))
    (hlater : BlockedIn later following) : BlockedIn (text ++ later) following := by
  intro before after heq
  obtain ⟨more, -, hmore⟩ | ⟨more, hmore, hafter⟩ := List.append_eq_append_iff.mp heq
  · exact hlater more after hmore
  · cases more with
    | nil => exact hlater [] after hafter.symm
    | cons c more =>
      rw [List.cons_append] at hafter
      obtain ⟨rfl, rfl⟩ := List.cons.inj hafter
      rw [List.append_assoc]
      exact h before more hmore

theorem settled_iff : Settled text ↔ BlockedIn text [] := by
  constructor
  · rintro h before after rfl name rest heq hchars
    rw [List.append_nil] at heq
    exact h name hchars ⟨before, rest, by simp [heq]⟩
  · rintro h name hchars ⟨before, rest, rfl⟩
    exact h before (name ++ '@' :: rest) (by simp) name rest (by simp) hchars

/-- No `@` follows one right away. -/
theorem head?_ne_sign (before following : List Char)
    (h : ¬ ['@', '@'] <:+: before ++ '@' :: following) : following.head? ≠ some '@' := by
  intro hhead
  obtain ⟨rest, rfl⟩ := List.head?_eq_some_iff.mp hhead
  exact h ⟨before, rest, by simp⟩

/-! ## Expansion -/

/-- The `@` of the literal text stay as they are, and there are no others. -/
theorem Tame.settled_expansion (hb : b.Tame) {d : Division} (h : d.Proper b [])
    (hpair : ¬ ['@', '@'] <:+: d.text) : Settled (d.expansion b) := by
  rw [settled_iff]
  induction d with
  | last literal =>
    rintro before after rfl
    refine blocked_of_inert (h before after rfl) (head?_ne_sign before _ ?_)
    simpa [Division.text] using hpair
  | token literal name rest ih =>
    obtain ⟨hliteral, hname, hrest⟩ := h
    have hrest : BlockedIn (rest.expansion b) [] := by
      refine ih hrest fun hpart => hpair (hpart.trans ?_)
      exact (List.suffix_append (literal ++ '@' :: name ++ ['@']) rest.text).isInfix.trans
        (by simp [Division.text])
    have hvalue : '@' ∉ b.value name := by
      obtain ⟨v, hbound⟩ := Option.isSome_iff_exists.mp hname.bound
      simpa [Bindings.value, hbound] using hb.value_no_sign hbound
    rw [Division.expansion, List.append_assoc]
    refine BlockedIn.append ?_ ((blockedIn_of_no_sign hvalue).append hrest)
    rintro before after rfl
    have hinert := hliteral before after rfl
    have hhead := head?_ne_sign before (after ++ ('@' :: name ++ '@' :: rest.text ++ []))
      (by simpa [Division.text] using hpair)
    exact (blocked_of_inert hinert hhead).replace _

/-- Nothing in a settled text is replaced. -/
theorem Tame.expand_of_settled (hb : b.Tame) {s : String} (h : Settled s.toList) :
    b.expand s = .ok s := by
  have hinert : b.InertIn s.toList [] :=
    fun before after heq => hb.inert (settled_iff.mp h before after heq)
  have hproper : (Division.last s.toList).Proper b [] := hinert
  rw [expand_eq_ok]
  exact expandFrom_text hproper

/-- A text that expands is divided into tokens with values and literal text. -/
theorem exists_division {s o : String} (h : b.expand s = .ok o) :
    ∃ d : Division, d.text = s.toList ∧ d.Proper b [] ∧ d.expansion b = o.toList := by
  obtain ⟨d, following, hs, hproper, hends⟩ := Division.exists_proper b s.toList
  rw [expand_eq_ok, hs] at h
  obtain rfl | ⟨name, rest, rfl, hname⟩ := hends
  · rw [List.append_nil] at h hs
    rw [expandFrom_text hproper] at h
    exact ⟨d, hs.symm, hproper, Except.ok.inj h⟩
  · rw [expandFrom_text_unbound hproper hname] at h
    cases h

/-- What comes of a text without adjacent signs is settled, and expanding it again does not
    change it. -/
theorem expand_settled (hb : b.Tame) {s o : String} (hpair : ¬ ['@', '@'] <:+: s.toList)
    (h : b.expand s = .ok o) : Settled o.toList ∧ b.expand o = .ok o := by
  obtain ⟨d, htext, hproper, hexpansion⟩ := exists_division h
  have hsettled : Settled o.toList := by
    rw [← hexpansion]
    exact hb.settled_expansion hproper (htext ▸ hpair)
  exact ⟨hsettled, hb.expand_of_settled hsettled⟩

/-- One name has an empty value. -/
def sparseBindings : Bindings := (empty.insert "A" "").insert "B" "b c"

theorem tame_sparseBindings : sparseBindings.Tame := by
  have hbound {name value : String} (h : sparseBindings.get? name = some value) :
      name = "B" ∧ value = "b c" ∨ name = "A" ∧ value = "" := by
    rw [sparseBindings, get?_insert, get?_insert, get?_empty] at h
    grind
  constructor
  · intro name value h
    obtain ⟨rfl, -⟩ | ⟨rfl, -⟩ := hbound h <;> exact List.all_eq_true.mp rfl
  · intro name value h
    obtain ⟨-, rfl⟩ | ⟨-, rfl⟩ := hbound h <;> decide

/-- Both signs that are no part of a token stay, with the empty value and the other one
    between them. -/
theorem expand_settled_address :
    ¬ ['@', '@'] <:+: "u@ @A@x @B@y@z".toList ∧
      sparseBindings.expand "u@ @A@x @B@y@z" = .ok "u@ x b cy@z" ∧
      Settled "u@ x b cy@z".toList ∧ sparseBindings.expand "u@ x b cy@z" = .ok "u@ x b cy@z" := by
  have hpair : ¬ ['@', '@'] <:+: "u@ @A@x @B@y@z".toList := by decide
  have hexpand : sparseBindings.expand "u@ @A@x @B@y@z" = .ok "u@ x b cy@z" := by rfl
  exact ⟨hpair, hexpand, expand_settled tame_sparseBindings hpair hexpand⟩

-- With signs side by side, the value joins one of them to a name.
example : sparseBindings.expand "@@A@B@" = .ok "@B@" := by rfl

end BuildServer.Bindings
