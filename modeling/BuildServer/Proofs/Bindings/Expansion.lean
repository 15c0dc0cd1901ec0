-- SUMMARY: A text is divided into tokens and literal text in one way only, and expansion replaces the tokens of that division.
import BuildServer.Bindings
import Mathlib.Data.Set.Subsingleton

/-!
# Expansion

An `@` begins a token if a name and another `@` follow it, where the name is bound
or at least reads like one. Divide a text into tokens and the literal text around
them, so that no `@` of the literal text begins a token: there is one way to do
so, at least up to the first token that is not bound. Expansion finds it. It puts
the values in the places of the tokens, and it fails if there is a token that has
no value.
-/

namespace BuildServer.Bindings

/-! ## Tokens -/

/-- The name of a token that has a value. -/
structure IsKey (b : Bindings) (name : List Char) : Prop where
  ne_nil : name ≠ []
  no_sign : '@' ∉ name
  bound : (b.get? (String.ofList name)).isSome

/-- The name of a token that has no value. -/
structure IsUnbound (b : Bindings) (name : List Char) : Prop where
  ne_nil : name ≠ []
  name_chars : ∀ c ∈ name, isNameChar c
  unbound : b.get? (String.ofList name) = none

/-- An `@` that is followed by this text begins no token: there is no further `@`, or
    there is nothing before it, or what is there is neither bound nor reads like a name. -/
def Inert (b : Bindings) (following : List Char) : Prop :=
  ∀ name rest, following = name ++ '@' :: rest → '@' ∉ name →
    name = [] ∨ b.get? (String.ofList name) = none ∧ ¬ ∀ c ∈ name, isNameChar c

/-- No `@` of a literal text begins a token, if the literal text is followed by that one. -/
def InertIn (b : Bindings) (literal following : List Char) : Prop :=
  ∀ before after, literal = before ++ '@' :: after → b.Inert (after ++ following)

/-- What stands for a token with this name. -/
def value (b : Bindings) (name : List Char) : List Char :=
  ((b.get? (String.ofList name)).getD "").toList

variable {b : Bindings} {name literal following rest : List Char}

theorem IsUnbound.no_sign (h : b.IsUnbound name) : '@' ∉ name := by
  intro hmem
  exact absurd (h.name_chars _ hmem) (by decide)

theorem IsKey.not_inert (h : b.IsKey name) (rest : List Char) :
    ¬ b.Inert (name ++ '@' :: rest) := by
  intro hinert
  obtain hnil | ⟨hnone, -⟩ := hinert name rest rfl h.no_sign
  · exact h.ne_nil hnil
  · simpa [hnone] using h.bound

theorem IsUnbound.not_inert (h : b.IsUnbound name) (rest : List Char) :
    ¬ b.Inert (name ++ '@' :: rest) := by
  intro hinert
  obtain hnil | ⟨-, hchars⟩ := hinert name rest rfl h.no_sign
  · exact h.ne_nil hnil
  · exact hchars h.name_chars

/-- An `@` begins no token, or one with a value, or one without. -/
theorem inert_or_token (b : Bindings) (following : List Char) :
    b.Inert following ∨ ∃ name rest, following = name ++ '@' :: rest ∧
      (b.IsKey name ∨ b.IsUnbound name) := by
  rw [Classical.or_iff_not_imp_left]
  intro hinert
  unfold Inert at hinert
  push Not at hinert
  obtain ⟨name, rest, hfollowing, hsign, hne, hchars⟩ := hinert
  refine ⟨name, rest, hfollowing, ?_⟩
  cases hbound : b.get? (String.ofList name) with
  | none => exact .inr ⟨hne, hchars hbound, hbound⟩
  | some value => exact .inl ⟨hne, hsign, by rw [hbound]; rfl⟩

theorem between_of_isKey (h : b.IsKey name) :
    ∃ v, b.between name = .bound v ∧ v.toList = b.value name := by
  obtain ⟨v, hv⟩ := Option.isSome_iff_exists.mp h.bound
  refine ⟨v, ?_, by rw [value, hv, Option.getD_some]⟩
  rw [between, if_neg (by simpa using h.ne_nil), hv]

theorem between_of_isUnbound (h : b.IsUnbound name) : b.between name = .unbound := by
  rw [between, if_neg (by simpa using h.ne_nil), h.unbound]
  exact if_pos (by simpa using h.name_chars)

theorem between_of_inert (h : b.Inert (name ++ '@' :: rest)) (hsign : '@' ∉ name) :
    b.between name = .plain := by
  obtain rfl | ⟨hnone, hchars⟩ := h name rest rfl hsign
  · rfl
  · rw [between, hnone]
    split
    · rfl
    · exact if_neg (by simpa using hchars)

/-! ## Steps of expansion -/

theorem map_map (x : Except UnresolvedToken (List Char)) (before after : List Char) :
    (x.map (after ++ ·)).map (before ++ ·) = x.map (before ++ after ++ ·) := by
  cases x <;> simp [Except.map]

theorem expandFrom_cons {c : Char} (hc : c ≠ '@') (cs : List Char) :
    b.expandFrom none (c :: cs) = (b.expandFrom none cs).map ([c] ++ ·) := by
  rw [expandFrom, if_neg hc]
  rfl

theorem expandFrom_sign (cs : List Char) :
    b.expandFrom none ('@' :: cs) = b.expandFrom (some []) cs := by
  rw [expandFrom, if_pos rfl]

/-- Text without an `@` is kept as it is. -/
theorem expandFrom_append (h : '@' ∉ literal) (cs : List Char) :
    b.expandFrom none (literal ++ cs) = (b.expandFrom none cs).map (literal ++ ·) := by
  induction literal with
  | nil => cases hcs : b.expandFrom none cs <;> simp [hcs, Except.map]
  | cons c literal ih =>
    rw [List.mem_cons, not_or] at h
    rw [List.cons_append, expandFrom_cons (Ne.symm h.1), ih h.2, map_map]
    rfl

/-- Text without an `@` is held back after one. -/
theorem expandFrom_held (h : '@' ∉ name) (held cs : List Char) :
    b.expandFrom (some held) (name ++ cs) = b.expandFrom (some (name.reverse ++ held)) cs := by
  induction name generalizing held with
  | nil => rfl
  | cons c name ih =>
    rw [List.mem_cons, not_or] at h
    rw [List.cons_append, expandFrom, if_neg (Ne.symm h.1), ih h.2]
    simp

/-- What comes of a text between two `@` signs. -/
theorem expandFrom_between (h : '@' ∉ name) (rest : List Char) :
    b.expandFrom none ('@' :: name ++ '@' :: rest) = match b.between name with
      | .bound v => (b.expandFrom none rest).map (v.toList ++ ·)
      | .unbound => .error ⟨String.ofList name⟩
      | .plain => (b.expandFrom (some []) rest).map ('@' :: name ++ ·) := by
  cases hname : b.between name <;>
    rw [List.cons_append, expandFrom_sign, expandFrom_held h, List.append_nil, expandFrom,
      if_pos rfl, List.reverse_reverse, hname]

theorem expandFrom_isKey (h : b.IsKey name) (rest : List Char) :
    b.expandFrom none ('@' :: name ++ '@' :: rest) =
      (b.expandFrom none rest).map (b.value name ++ ·) := by
  obtain ⟨v, hv, hvalue⟩ := between_of_isKey h
  rw [expandFrom_between h.no_sign, hv, ← hvalue]

theorem expandFrom_isUnbound (h : b.IsUnbound name) (rest : List Char) :
    b.expandFrom none ('@' :: name ++ '@' :: rest) = .error ⟨String.ofList name⟩ := by
  rw [expandFrom_between h.no_sign, between_of_isUnbound h]

/-- An `@` that begins no token is kept as it is. -/
theorem expandFrom_inert (h : b.Inert following) :
    b.expandFrom none ('@' :: following) = (b.expandFrom none following).map (['@'] ++ ·) := by
  by_cases hsign : '@' ∈ following
  · obtain ⟨name, rest, rfl, hname⟩ := List.eq_append_cons_of_mem hsign
    rw [← List.cons_append, expandFrom_between hname, between_of_inert h hname,
      expandFrom_append hname, expandFrom_sign, map_map]
    rfl
  · have hheld := expandFrom_held (b := b) hsign [] []
    have hkept := expandFrom_append (b := b) hsign []
    rw [List.append_nil, List.append_nil] at hheld
    rw [List.append_nil] at hkept
    rw [expandFrom_sign, hheld, hkept]
    simp [expandFrom, Except.map]

theorem expandFrom_inertIn (h : b.InertIn literal following) :
    b.expandFrom none (literal ++ following) =
      (b.expandFrom none following).map (literal ++ ·) := by
  induction literal with
  | nil => exact expandFrom_append List.not_mem_nil following
  | cons c literal ih =>
    have htail : b.InertIn literal following :=
      fun before after heq => h (c :: before) after (by rw [heq, List.cons_append])
    by_cases hc : c = '@'
    · subst hc
      rw [List.cons_append, expandFrom_inert (h [] literal rfl), ih htail, map_map]
      rfl
    · rw [List.cons_append, expandFrom_cons hc, ih htail, map_map]
      rfl

/-! ## Divisions -/

/-- A text in parts: tokens by their names, each with the literal text before it, and the
    literal text at the end. -/
inductive Division where
  | last (literal : List Char)
  | token (literal name : List Char) (rest : Division)

namespace Division

/-- The text that is divided. -/
def text : Division → List Char
  | last literal => literal
  | token literal name rest => literal ++ '@' :: name ++ '@' :: rest.text

/-- The text with the values of the tokens in their places. -/
def expansion (b : Bindings) : Division → List Char
  | last literal => literal
  | token literal name rest => literal ++ b.value name ++ rest.expansion b

/-- All tokens have values, and no `@` elsewhere begins a token, if the divided text is
    followed by that one. -/
def Proper (b : Bindings) (following : List Char) : Division → Prop
  | last literal => b.InertIn literal following
  | token literal name rest =>
    b.InertIn literal ('@' :: name ++ '@' :: rest.text ++ following) ∧ b.IsKey name ∧
      rest.Proper b following

variable {d d' : Division}

/-- Expansion replaces the tokens of a proper division and goes on behind it. -/
theorem Proper.expandFrom (h : d.Proper b following) :
    b.expandFrom none (d.text ++ following) =
      (b.expandFrom none following).map (d.expansion b ++ ·) := by
  induction d with
  | last literal => exact expandFrom_inertIn h
  | token literal name rest ih =>
    obtain ⟨hliteral, hname, hrest⟩ := h
    have htext : (token literal name rest).text ++ following =
        literal ++ ('@' :: name ++ '@' :: rest.text ++ following) := by
      simp [text]
    have htoken : '@' :: name ++ '@' :: rest.text ++ following =
        '@' :: name ++ '@' :: (rest.text ++ following) := by
      simp
    rw [htext, expandFrom_inertIn hliteral, htoken, expandFrom_isKey hname, ih hrest, map_map,
      map_map, expansion, List.append_assoc]

/-! ## There is one division -/

/-- A division ends with the text, or before a token that has no value. -/
def Ends (b : Bindings) (following : List Char) : Prop :=
  following = [] ∨ ∃ name rest, following = '@' :: name ++ '@' :: rest ∧ b.IsUnbound name

/-- The division with one more character of literal text in front. -/
def push (c : Char) : Division → Division
  | last literal => last (c :: literal)
  | token literal name rest => token (c :: literal) name rest

theorem text_push (c : Char) (d : Division) : (d.push c).text = c :: d.text := by
  cases d <;> rfl

theorem inertIn_cons {c : Char} (hc : c = '@' → b.Inert (literal ++ following))
    (h : b.InertIn literal following) : b.InertIn (c :: literal) following := by
  intro before after heq
  obtain ⟨rfl, hcons⟩ | ⟨before, rfl, hliteral⟩ := List.cons_eq_append_iff.mp heq
  · obtain ⟨hsign, rfl⟩ := List.cons.inj hcons
    exact hc hsign.symm
  · exact h before after hliteral

theorem Proper.push {c : Char} (h : d.Proper b following)
    (hc : c = '@' → b.Inert (d.text ++ following)) : (d.push c).Proper b following := by
  cases d with
  | last literal => exact inertIn_cons hc h
  | token literal name rest =>
    refine ⟨inertIn_cons ?_ h.1, h.2⟩
    simpa [text] using hc

/-- Every text can be divided up to its end or to a token that has no value. -/
theorem exists_proper (b : Bindings) (s : List Char) :
    ∃ (d : Division) (following : List Char),
      s = d.text ++ following ∧ d.Proper b following ∧ Ends b following := by
  induction hlength : s.length using Nat.strong_induction_on generalizing s with
  | _ n ih =>
  subst hlength
  cases s with
  | nil => exact ⟨last [], [], rfl, by simp [Proper, InertIn], .inl rfl⟩
  | cons c cs =>
    by_cases hinert : c = '@' → b.Inert cs
    · obtain ⟨d, following, rfl, hproper, hends⟩ := ih cs.length (by simp) cs rfl
      exact ⟨d.push c, following, by rw [text_push, List.cons_append], hproper.push hinert, hends⟩
    · rw [Classical.not_imp] at hinert
      obtain ⟨rfl, hinert⟩ := hinert
      obtain ⟨name, rest, rfl, hkey | hunbound⟩ := (b.inert_or_token cs).resolve_left hinert
      · obtain ⟨d, following, rfl, hproper, hends⟩ := ih rest.length (by simp; omega) rest rfl
        refine ⟨token [] name d, following, by simp [text], ⟨?_, hkey, hproper⟩, hends⟩
        simp [InertIn]
      · exact ⟨last [], '@' :: name ++ '@' :: rest, rfl, by simp [Proper, InertIn],
          .inr ⟨name, rest, rfl, hunbound⟩⟩

/-- A text has one part before its first `@`. -/
theorem eq_of_append_sign {name name' rest rest' : List Char} (h : '@' ∉ name) (h' : '@' ∉ name')
    (heq : name ++ '@' :: rest = name' ++ '@' :: rest') : name = name' ∧ rest = rest' := by
  have hsplit := congrArg (List.splitOn '@') heq
  rw [List.splitOn_append_cons_self_of_not_mem h, List.splitOn_append_cons_self_of_not_mem h']
    at hsplit
  obtain rfl := (List.cons.inj hsplit).1
  exact ⟨rfl, (List.cons.inj (List.append_cancel_left heq)).2⟩

/-- Behind a literal text: nothing, or an `@` that begins a token. -/
def Breaks (b : Bindings) (following : List Char) : Prop :=
  following = [] ∨ ∃ rest, following = '@' :: rest ∧ ¬ b.Inert rest

theorem Ends.breaks (h : Ends b following) : Breaks b following := by
  obtain rfl | ⟨name, rest, rfl, hname⟩ := h
  · exact .inl rfl
  · exact .inr ⟨_, rfl, hname.not_inert rest⟩

theorem breaks_token (h : b.IsKey name) (rest : List Char) :
    Breaks b ('@' :: name ++ '@' :: rest) :=
  .inr ⟨_, rfl, h.not_inert rest⟩

/-- A literal text does not go on behind one, since an `@` would have to begin a token
    and not to begin one. -/
theorem eq_nil_of_breaks {literal' more following' : List Char} (hbreaks : Breaks b following)
    (hinert : b.InertIn literal' following') (hliteral : literal' = literal ++ more)
    (hfollowing : following = more ++ following') : more = [] := by
  cases more with
  | nil => rfl
  | cons c more =>
    obtain rfl | ⟨rest, rfl, hrest⟩ := hbreaks
    · cases hfollowing
    · obtain ⟨rfl, rfl⟩ := List.cons.inj hfollowing
      exact absurd (hinert literal more hliteral) hrest

theorem literal_unique {literal' following' : List Char} (h : b.InertIn literal following)
    (h' : b.InertIn literal' following') (hbreaks : Breaks b following)
    (hbreaks' : Breaks b following') (heq : literal ++ following = literal' ++ following') :
    literal = literal' ∧ following = following' := by
  obtain ⟨more, hliteral, hfollowing⟩ | ⟨more, hliteral, hfollowing⟩ :=
    List.append_eq_append_iff.mp heq
  · obtain rfl := eq_nil_of_breaks hbreaks h' hliteral hfollowing
    exact ⟨by simpa using hliteral.symm, by simpa using hfollowing⟩
  · obtain rfl := eq_nil_of_breaks hbreaks' h hliteral hfollowing
    exact ⟨by simpa using hliteral, by simpa using hfollowing.symm⟩

/-- No division ends before a token that has a value. -/
theorem not_ends_token (h : b.IsKey name) (rest : List Char) :
    ¬ Ends b ('@' :: name ++ '@' :: rest) := by
  rintro (hnil | ⟨name', rest', heq, hname'⟩)
  · cases hnil
  · obtain ⟨rfl, -⟩ := eq_of_append_sign h.no_sign hname'.no_sign (List.cons.inj heq).2
    simpa [hname'.unbound] using h.bound

/-- A text is divided in one way only. -/
theorem Proper.unique {following' : List Char} (h : d.Proper b following)
    (h' : d'.Proper b following') (hends : Ends b following) (hends' : Ends b following')
    (heq : d.text ++ following = d'.text ++ following') : d = d' ∧ following = following' := by
  induction d generalizing d' with
  | last literal =>
    cases d' with
    | last literal' =>
      obtain ⟨rfl, rfl⟩ := literal_unique h h' hends.breaks hends'.breaks heq
      exact ⟨rfl, rfl⟩
    | token literal' name' rest' =>
      obtain ⟨hliteral', hname', -⟩ := h'
      simp only [text, List.append_assoc, List.cons_append] at heq hliteral'
      obtain ⟨-, rfl⟩ := literal_unique h hliteral' hends.breaks (breaks_token hname' _) heq
      exact absurd hends (not_ends_token hname' _)
  | token literal name rest ih =>
    obtain ⟨hliteral, hname, hrest⟩ := h
    cases d' with
    | last literal' =>
      simp only [text, List.append_assoc, List.cons_append] at heq hliteral
      obtain ⟨-, rfl⟩ := literal_unique hliteral h' (breaks_token hname _) hends'.breaks heq
      exact absurd hends' (not_ends_token hname _)
    | token literal' name' rest' =>
      obtain ⟨hliteral', hname', hrest'⟩ := h'
      simp only [text, List.append_assoc, List.cons_append] at heq hliteral hliteral'
      obtain ⟨rfl, htoken⟩ := literal_unique hliteral hliteral' (breaks_token hname _)
        (breaks_token hname' _) heq
      obtain ⟨rfl, htext⟩ :=
        eq_of_append_sign hname.no_sign hname'.no_sign (List.cons.inj htoken).2
      obtain ⟨rfl, rfl⟩ := ih hrest hrest' htext
      exact ⟨rfl, rfl⟩

end Division

/-! ## Expansion of a text -/

theorem expand_eq_ok {s o : String} :
    b.expand s = .ok o ↔ b.expandFrom none s.toList = .ok o.toList := by
  rw [expand]
  cases b.expandFrom none s.toList with
  | error e => simp [Except.map]
  | ok out => simp [Except.map, ← String.toList_inj]

theorem expand_eq_error {s : String} {e : UnresolvedToken} :
    b.expand s = .error e ↔ b.expandFrom none s.toList = .error e := by
  rw [expand]
  cases b.expandFrom none s.toList <;> simp [Except.map]

theorem expandFrom_text {d : Division} (h : d.Proper b []) :
    b.expandFrom none d.text = .ok (d.expansion b) := by
  have hrun := h.expandFrom
  rwa [List.append_nil, expandFrom, Except.map, List.append_nil] at hrun

theorem expandFrom_text_unbound {d : Division} (h : d.Proper b ('@' :: name ++ '@' :: rest))
    (hname : b.IsUnbound name) :
    b.expandFrom none (d.text ++ ('@' :: name ++ '@' :: rest)) =
      .error ⟨String.ofList name⟩ := by
  rw [h.expandFrom, expandFrom_isUnbound hname, Except.map]

/-- Where a division is proper up to the end of the text, expansion gives the text with the
    values in the places of the tokens. Where it ends before a token that has no value,
    expansion fails there. One of the two is always so. -/
theorem expand_exact (b : Bindings) (s : String) :
    (∀ o, b.expand s = .ok o ↔
      ∃ d : Division, d.text = s.toList ∧ d.Proper b [] ∧ d.expansion b = o.toList) ∧
    {d : Division | d.text = s.toList ∧ d.Proper b []}.Subsingleton ∧
    (∀ t, b.expand s = .error ⟨t⟩ ↔ ∃ (d : Division) (rest : List Char),
      s.toList = d.text ++ ('@' :: t.toList ++ '@' :: rest) ∧
        d.Proper b ('@' :: t.toList ++ '@' :: rest) ∧ b.IsUnbound t.toList) ∧
    ((∃ o, b.expand s = .ok o) ∨ ∃ t, b.expand s = .error ⟨t⟩) := by
  obtain ⟨d, following, hs, hproper, hends⟩ := Division.exists_proper b s.toList
  refine ⟨fun o => ⟨fun h => ?_, ?_⟩, ?_, fun t => ⟨fun h => ?_, ?_⟩, ?_⟩
  · rw [expand_eq_ok, hs] at h
    obtain rfl | ⟨name, rest, rfl, hname⟩ := hends
    · rw [List.append_nil] at h hs
      rw [expandFrom_text hproper] at h
      exact ⟨d, hs.symm, hproper, Except.ok.inj h⟩
    · rw [expandFrom_text_unbound hproper hname] at h
      cases h
  · rintro ⟨d, htext, hproper, hexpansion⟩
    rw [expand_eq_ok, ← htext, expandFrom_text hproper, hexpansion]
  · rintro d ⟨htext, hproper⟩ d' ⟨htext', hproper'⟩
    exact (hproper.unique hproper' (.inl rfl) (.inl rfl) (by rw [htext, htext'])).1
  · rw [expand_eq_error, hs] at h
    obtain rfl | ⟨name, rest, rfl, hname⟩ := hends
    · rw [List.append_nil, expandFrom_text hproper] at h
      cases h
    · rw [expandFrom_text_unbound hproper hname] at h
      obtain rfl : String.ofList name = t := by simpa using h
      rw [String.toList_ofList]
      exact ⟨d, rest, hs, hproper, hname⟩
  · rintro ⟨d, rest, hs, hproper, hname⟩
    rw [expand_eq_error, hs, expandFrom_text_unbound hproper hname, String.ofList_toList]
  · cases b.expand s with
    | ok o => exact .inl ⟨o, rfl⟩
    | error e => exact .inr ⟨e.name, rfl⟩

-- The sign of an address begins no token, and a value is not expanded again.
example : ((empty.insert "A" "@B@").expand "git@host @A@").toOption = some "git@host @B@" := by rfl

end BuildServer.Bindings
