-- SUMMARY: Documents as texts, one line for each item, and reading such a text back.
import BuildServer.Ini.Reader
import BuildServer.Proofs.Text.Words

/-!
# Writing documents

An item is written as one line: a header in brackets, an assignment with an equals
sign between its key and its value. Reading gives every document back whose names,
keys and values can be told from what stands around them. They need no quotes: but
for what ends them, every character stands for itself.

Between two lines the reader is ready and has no key pending, and that is all that
a line needs to find.
-/

namespace BuildServer.Ini

/-! ## Lines -/

def Item.line : Item → String
  | .header name => "[" ++ name ++ "]"
  | .assign key value => key ++ " = " ++ value

/-- The document, each item on a line of its own. -/
def Document.text (d : Document) : String :=
  String.join (d.map fun i => i.line ++ "\n")

/-- The text ends in an odd number of backslashes. The last of them is not kept
    by another one, and so keeps what comes after the text. -/
def endsOpen (s : String) : Bool :=
  (s.toList.reverse.takeWhile (· == '\\')).length % 2 == 1

/-- A text that is read as a key. -/
structure IsKey (s : String) : Prop where
  ne_empty : s ≠ ""
  trimmed : Text.trim s = s
  free : ∀ c ∈ s.toList, isSeparator c = false ∧ isBreak c = false
  start : ∀ c ∈ s.toList.head?, c ≠ '[' ∧ c ≠ ';' ∧ c ≠ '#'

theorem isKey_iff {s : String} : IsKey s ↔ s ≠ "" ∧ Text.trim s = s ∧
    (s.toList.all fun c => !isSeparator c && !isBreak c) ∧
    (s.toList.head?.all fun c => c != '[' && c != ';' && c != '#') := by
  constructor
  · rintro ⟨hne, htrimmed, hfree, hstart⟩
    exact ⟨hne, htrimmed, by simpa using hfree, by simpa [Option.all_eq_true, and_assoc] using hstart⟩
  · rintro ⟨hne, htrimmed, hfree, hstart⟩
    exact ⟨hne, htrimmed, by simpa using hfree, by simpa [Option.all_eq_true, and_assoc] using hstart⟩

instance (s : String) : Decidable (IsKey s) := decidable_of_iff _ isKey_iff.symm

/-- A text that is read as the name of a section. -/
structure IsName (s : String) : Prop where
  trimmed : Text.trim s = s
  free : ∀ c ∈ s.toList, c ≠ ']' ∧ isBreak c = false
  closed : endsOpen s = false

theorem isName_iff {s : String} : IsName s ↔
    Text.trim s = s ∧ (s.toList.all fun c => c != ']' && !isBreak c) ∧ endsOpen s = false := by
  constructor
  · rintro ⟨htrimmed, hfree, hclosed⟩
    exact ⟨htrimmed, by simpa using hfree, hclosed⟩
  · rintro ⟨htrimmed, hfree, hclosed⟩
    exact ⟨htrimmed, by simpa using hfree, hclosed⟩

instance (s : String) : Decidable (IsName s) := decidable_of_iff _ isName_iff.symm

/-- A text that is read as a value. -/
structure IsValue (s : String) : Prop where
  trimmed : Text.trim s = s
  free : ∀ c ∈ s.toList, isBreak c = false
  closed : endsOpen s = false

theorem isValue_iff {s : String} : IsValue s ↔
    Text.trim s = s ∧ (s.toList.all fun c => !isBreak c) ∧ endsOpen s = false := by
  constructor
  · rintro ⟨htrimmed, hfree, hclosed⟩
    exact ⟨htrimmed, by simpa using hfree, hclosed⟩
  · rintro ⟨htrimmed, hfree, hclosed⟩
    exact ⟨htrimmed, by simpa using hfree, hclosed⟩

instance (s : String) : Decidable (IsValue s) := decidable_of_iff _ isValue_iff.symm

def Item.Writable : Item → Prop
  | .header name => IsName name
  | .assign key value => IsKey key ∧ IsValue value

/-! ## Gathering -/

/-- The text gathered so far, in reverse, and whether a backslash waits for the
    next character. -/
abbrev Gathered := List Char × Bool

namespace Gathered

/-- Gather a character that does not end the text. -/
def add : Gathered → Char → Gathered
  | (text, true), c => (afterEscape text c, false)
  | (text, false), c => if c = '\\' then (text, true) else (c :: text, false)

/-- All that was read, with a backslash that waits. -/
def read : Gathered → List Char
  | (text, true) => '\\' :: text
  | (text, false) => text

theorem read_add {c : Char} (hc : c ≠ '\n') (g : Gathered) : (g.add c).read = c :: g.read := by
  obtain ⟨text, _ | _⟩ := g
  · by_cases h : c = '\\' <;> simp [add, read, h]
  · simp [add, read, afterEscape, hc]

theorem snd_add (g : Gathered) (c : Char) : (g.add c).2 = (!g.2 && c == '\\') := by
  obtain ⟨text, _ | _⟩ := g
  · by_cases h : c = '\\' <;> simp [add, h]
  · rfl

theorem read_foldl_add {cs : List Char} (hcs : '\n' ∉ cs) (g : Gathered) :
    (cs.foldl add g).read = cs.reverse ++ g.read := by
  induction cs generalizing g with
  | nil => rfl
  | cons c cs ih =>
    simp only [List.mem_cons, not_or] at hcs
    rw [List.foldl_cons, ih hcs.2, read_add (Ne.symm hcs.1), List.reverse_cons, List.append_assoc]
    rfl

/-- A backslash waits after a text that ends in an odd number of them. -/
theorem snd_foldl_add (cs : List Char) :
    (cs.foldl add ([], false)).2 = ((cs.reverse.takeWhile (· == '\\')).length % 2 == 1) := by
  induction cs using List.reverseRecOn with
  | nil => rfl
  | append_singleton cs c ih =>
    rw [List.foldl_append, List.foldl_cons, List.foldl_nil, snd_add, ih, List.reverse_append,
      List.reverse_singleton, List.singleton_append, List.takeWhile_cons]
    by_cases h : c = '\\'
    · simp only [h, beq_self_eq_true, Bool.and_true, if_true, List.length_cons]
      rcases Nat.mod_two_eq_zero_or_one (cs.reverse.takeWhile (· == '\\')).length with h | h
      · simp [h, Nat.add_mod]
      · simp [h, Nat.add_mod]
    · simp [h]

theorem foldl_add_eq {s : String} (hbreak : ∀ c ∈ s.toList, isBreak c = false)
    (hclosed : endsOpen s = false) : s.toList.foldl add ([], false) = (s.toList.reverse, false) := by
  have hnewline : '\n' ∉ s.toList := fun hmem => absurd (hbreak _ hmem) (by decide)
  have hread := read_foldl_add hnewline ([], false)
  have hsnd := (snd_foldl_add s.toList).trans hclosed
  rcases hg : s.toList.foldl add ([], false) with ⟨text, _ | _⟩
  · rw [hg] at hread
    simpa [read] using hread
  · rw [hg] at hsnd
    cases hsnd

end Gathered

namespace State

theorem run_cons {s s' : State} {c : Char} (h : s.next c = .ok s') (cs : List Char) :
    s.run (c :: cs) = s'.run cs := by
  rw [run, h]
  rfl

/-- Where every character of a text is only gathered, all of it is. -/
theorem run_gather (mode : Gathered → Mode) {allowed : Char → Prop} {key : List Char}
    {items : List Item}
    (hnext : ∀ p g c, allowed c →
      next ⟨p, mode g, key, items⟩ c = .ok ⟨p.after c, mode (g.add c), key, items⟩)
    {cs : List Char} (hcs : ∀ c ∈ cs, allowed c) (p : Position) (g : Gathered) :
    ∃ p', ∀ rest, run ⟨p, mode g, key, items⟩ (cs ++ rest) =
      run ⟨p', mode (cs.foldl Gathered.add g), key, items⟩ rest := by
  induction cs generalizing p g with
  | nil => exact ⟨p, fun _ => rfl⟩
  | cons c cs ih =>
    obtain ⟨p', h⟩ := ih (fun x hx => hcs x (by simp [hx])) (p.after c) (g.add c)
    exact ⟨p', fun rest => (run_cons (hnext p g c (hcs c (by simp))) _).trans (h rest)⟩

theorem next_header {c : Char} (hc : c ≠ ']') (p : Position) (g : Gathered) (key : List Char)
    (items : List Item) :
    next ⟨p, .header g.1 g.2, key, items⟩ c =
      .ok ⟨p.after c, .header (g.add c).1 (g.add c).2, key, items⟩ := by
  obtain ⟨text, _ | _⟩ := g
  · by_cases h : c = '\\' <;> simp [next, inHeader, enter, Gathered.add, h, hc]
  · rfl

theorem next_key {c : Char} (hc : isSeparator c = false) (p : Position) (g : Gathered) (key : List Char)
    (items : List Item) :
    next ⟨p, .key false g.1 g.2, key, items⟩ c =
      .ok ⟨p.after c, .key false (g.add c).1 (g.add c).2, key, items⟩ := by
  obtain ⟨text, _ | _⟩ := g
  · by_cases h : c = '\\' <;> simp [next, inKey, enter, Gathered.add, h, hc]
  · rfl

theorem next_value {c : Char} (hc : isBreak c = false) (p : Position) (g : Gathered) (key : List Char)
    (items : List Item) :
    next ⟨p, .value g.1 g.2, key, items⟩ c =
      .ok ⟨p.after c, .value (g.add c).1 (g.add c).2, key, items⟩ := by
  obtain ⟨text, _ | _⟩ := g
  · by_cases h : c = '\\' <;> simp [next, inValue, enter, Gathered.add, h, hc]
  · rfl

/-! ## Reading a line -/

/-- What the reader is in the middle of between two lines. -/
def AtLine (m : Mode) : Prop := m = .ready ∨ m = .lineStart

theorem gathered_reverse {s : String} (h : Text.trim s = s) : gathered s.toList.reverse = s := by
  rw [gathered, List.reverse_reverse]
  exact h

theorem next_bracket {m : Mode} (hm : AtLine m) (p : Position) (items : List Item) :
    next ⟨p, m, [], items⟩ '[' = .ok ⟨p.after '[', .header [] false, [], items⟩ := by
  rcases hm with rfl | rfl <;> rfl

theorem next_close {name : String} (h : Text.trim name = name) (p : Position) (items : List Item) :
    next ⟨p, .header name.toList.reverse false, [], items⟩ ']' =
      .ok ⟨p.after ']', .blanks, [], .header name :: items⟩ := by
  simp only [next, inHeader, addHeader, enter, gathered_reverse h]
  rfl

/-- All of an item has been read, and what comes next can be a line break or the
    end of the text. -/
structure Complete (i : Item) (items : List Item) (s : State) : Prop where
  next_newline : ∃ p, s.next '\n' = .ok ⟨p, .lineStart, [], i :: items⟩
  finish : ∃ s', s.finish = .ok s' ∧ s'.items = i :: items

theorem run_header {name : String} (h : IsName name) {m : Mode} (hm : AtLine m) (p : Position)
    (items : List Item) :
    ∃ s, Complete (.header name) items s ∧
      ∀ rest, run ⟨p, m, [], items⟩ ((Item.header name).line.toList ++ rest) = s.run rest := by
  have hline : (Item.header name).line.toList = '[' :: (name.toList ++ [']']) := by
    simp [Item.line]
  obtain ⟨p', hname⟩ := run_gather (fun g => .header g.1 g.2)
    (fun p g _ hc => next_header hc p g [] items) (fun c hc => (h.free c hc).1) (p.after '[')
    ([], false)
  rw [Gathered.foldl_add_eq (fun c hc => (h.free c hc).2) h.closed] at hname
  refine ⟨⟨p'.after ']', .blanks, [], .header name :: items⟩, ⟨⟨_, rfl⟩, _, rfl, rfl⟩,
    fun rest => ?_⟩
  rw [hline, List.cons_append, List.append_assoc]
  calc run ⟨p, m, [], items⟩ ('[' :: (name.toList ++ ([']'] ++ rest)))
    _ = run ⟨p.after '[', .header [] false, [], items⟩ (name.toList ++ ([']'] ++ rest)) :=
      run_cons (next_bracket hm p items) _
    _ = run ⟨p', .header name.toList.reverse false, [], items⟩ (']' :: rest) := hname _
    _ = run ⟨p'.after ']', .blanks, [], .header name :: items⟩ rest :=
      run_cons (next_close h.trimmed p' items) _

/-- The first character of a key. -/
theorem next_keyStart {m : Mode} (hm : AtLine m) {c : Char} (hblank : Text.isBlank c = false)
    (hseparator : isSeparator c = false) (hstart : c ≠ '[' ∧ c ≠ ';' ∧ c ≠ '#') (p : Position)
    (items : List Item) :
    next ⟨p, m, [], items⟩ c =
      .ok ⟨p.after c, .key false (Gathered.add ([], false) c).1 (Gathered.add ([], false) c).2, [],
        items⟩ := by
  have hindent : isIndent c = false := by
    rw [Bool.eq_false_iff]
    intro h
    simp only [isIndent, Bool.or_eq_true, beq_iff_eq] at h
    rcases h with rfl | rfl <;> exact absurd hblank (by decide)
  have hbreak : isBreak c = false := by
    rw [Bool.eq_false_iff]
    intro h
    simp only [isBreak, Bool.or_eq_true, beq_iff_eq] at h
    rcases h with rfl | rfl <;> exact absurd hblank (by decide)
  have hready : inReady ⟨p.after c, m, [], items⟩ c = inKey ⟨p.after c, m, [], items⟩ false [] false c := by
    simp [inReady, hindent, hbreak, hseparator, hstart]
  have hkey := next_key hseparator p ([], false) [] items
  rw [← hkey]
  rcases hm with rfl | rfl
  · exact hready
  · simp only [next, inLineStart, inBlanks, hindent, hbreak, hblank, Bool.false_eq_true, if_false]
    exact hready

theorem next_separator {key : String} (h : IsKey key) (p : Position) (items : List Item) :
    next ⟨p, .key false (' ' :: key.toList.reverse) false, [], items⟩ '=' =
      .ok ⟨p.after '=', .beforeValue, key.toList, items⟩ := by
  have hkey : Text.trimChars (key.toList ++ [' ']) = key.toList := by
    rw [Text.trimChars_append_blank (by decide), Text.trimChars_toList h.trimmed]
  simp [next, inKey, isSeparator, setKey, hkey, separator, h.ne_empty, enter]

theorem run_key {key : String} (h : IsKey key) {m : Mode} (hm : AtLine m) (p : Position)
    (items : List Item) :
    ∃ p', ∀ rest, run ⟨p, m, [], items⟩ (key.toList ++ ' ' :: '=' :: rest) =
      run ⟨p', .beforeValue, key.toList, items⟩ rest := by
  obtain ⟨c, cs, hcons⟩ := List.exists_cons_of_ne_nil (l := key.toList) (by simpa using h.ne_empty)
  have hlist : (key ++ " ").toList = c :: (cs ++ [' ']) := by simp [hcons]
  have hgathered : (c :: (cs ++ [' '])).foldl Gathered.add ([], false) =
      (' ' :: key.toList.reverse, false) := by
    rw [← hlist, Gathered.foldl_add_eq (s := key ++ " ") _ (by simp [endsOpen])]
    · simp
    · intro x hx
      rw [String.toList_append, List.mem_append] at hx
      rcases hx with hx | hx
      · exact (h.free x hx).2
      · rw [List.mem_singleton.mp hx]
        rfl
  have hfree (x : Char) (hx : x ∈ cs ++ [' ']) : isSeparator x = false := by
    rcases List.mem_append.mp hx with hx | hx
    · exact (h.free x (by simp [hcons, hx])).1
    · rw [List.mem_singleton.mp hx]
      rfl
  have hfirst := next_keyStart hm (Text.isBlank_head_of_trim h.trimmed hcons)
    (h.free c (by simp [hcons])).1 (h.start c (by simp [hcons])) p items
  obtain ⟨p', hrun⟩ := run_gather (fun g => .key false g.1 g.2)
    (fun p g _ hc => next_key hc p g [] items) hfree (p.after c) (Gathered.add ([], false) c)
  rw [← List.foldl_cons, hgathered] at hrun
  refine ⟨p'.after '=', fun rest => ?_⟩
  calc run ⟨p, m, [], items⟩ (key.toList ++ ' ' :: '=' :: rest)
    _ = run ⟨p, m, [], items⟩ (c :: (cs ++ [' '] ++ '=' :: rest)) := by simp [hcons]
    _ = run ⟨p.after c, .key false (Gathered.add ([], false) c).1 (Gathered.add ([], false) c).2, [],
          items⟩ (cs ++ [' '] ++ '=' :: rest) := run_cons hfirst _
    _ = run ⟨p', .key false (' ' :: key.toList.reverse) false, [], items⟩ ('=' :: rest) := hrun _
    _ = run ⟨p'.after '=', .beforeValue, key.toList, items⟩ rest :=
      run_cons (next_separator h p' items) _

/-- The first character of a value. -/
theorem next_valueStart {c : Char} (hblank : Text.isBlank c = false) (p : Position)
    (key : List Char) (items : List Item) :
    next ⟨p, .beforeValue, key, items⟩ c =
      .ok ⟨p.after c, .value (Gathered.add ([], false) c).1 (Gathered.add ([], false) c).2, key,
        items⟩ := by
  have hbreak : isBreak c = false := by
    rw [Bool.eq_false_iff]
    intro h
    simp only [isBreak, Bool.or_eq_true, beq_iff_eq] at h
    rcases h with rfl | rfl <;> exact absurd hblank (by decide)
  rw [← next_value hbreak p ([], false) key items]
  simp only [next, hblank, Bool.false_and, Bool.false_eq_true, if_false]
  rfl

theorem addValue_eq {value : String} (h : Text.trim value = value) (p : Position) (m : Mode)
    (key : String) (items : List Item) :
    addValue ⟨p, m, key.toList, items⟩ value.toList.reverse =
      ⟨p, m, [], .assign key value :: items⟩ := by
  simp [addValue, gathered_reverse h]

theorem complete_value {value : String} (h : Text.trim value = value) (p : Position) (key : String)
    (items : List Item) :
    Complete (.assign key value) items ⟨p, .value value.toList.reverse false, key.toList, items⟩ := by
  constructor
  · refine ⟨p.after '\n', ?_⟩
    simp only [next, inValue, isBreak, addValue_eq h]
    rfl
  · exact ⟨_, rfl, by simp [addValue_eq h]⟩

/-- Where a value could begin, there is an empty one. -/
theorem complete_empty (p : Position) (key : String) (items : List Item) :
    Complete (.assign key "") items ⟨p, .beforeValue, key.toList, items⟩ := by
  have hadd (p : Position) (m : Mode) : addValue ⟨p, m, key.toList, items⟩ [] =
      ⟨p, m, [], .assign key "" :: items⟩ := by
    have hempty : Text.trim "" = "" := by decide
    simpa using addValue_eq hempty p m key items
  constructor
  · refine ⟨p.after '\n', ?_⟩
    have hnewline : isBreak '\n' = true := rfl
    simp only [next, inValue, hnewline, Bool.not_true, Bool.and_false, Bool.false_eq_true, if_false,
      hadd]
    rfl
  · exact ⟨_, rfl, by rw [hadd]⟩

theorem run_value {value : String} (h : IsValue value) (p : Position) (key : String)
    (items : List Item) :
    ∃ s, Complete (.assign key value) items s ∧
      ∀ rest, run ⟨p, .beforeValue, key.toList, items⟩ (' ' :: (value.toList ++ rest)) =
        s.run rest := by
  have hspace : next ⟨p, .beforeValue, key.toList, items⟩ ' ' =
      .ok ⟨p.after ' ', .beforeValue, key.toList, items⟩ := rfl
  rcases hvalue : value.toList with _ | ⟨c, cs⟩
  · obtain rfl : value = "" := by simpa using hvalue
    exact ⟨_, complete_empty (p.after ' ') key items, fun rest => run_cons hspace rest⟩
  · have hfirst := next_valueStart (Text.isBlank_head_of_trim h.trimmed hvalue) (p.after ' ')
      key.toList items
    have hfree (x : Char) (hx : x ∈ cs) : isBreak x = false := h.free x (by simp [hvalue, hx])
    obtain ⟨p', hrun⟩ := run_gather (fun g => .value g.1 g.2)
      (fun p g _ hc => next_value hc p g key.toList items) hfree ((p.after ' ').after c)
      (Gathered.add ([], false) c)
    rw [← List.foldl_cons, ← hvalue, Gathered.foldl_add_eq h.free h.closed] at hrun
    refine ⟨_, complete_value h.trimmed p' key items, fun rest => ?_⟩
    calc run ⟨p, .beforeValue, key.toList, items⟩ (' ' :: (c :: cs ++ rest))
      _ = run ⟨p.after ' ', .beforeValue, key.toList, items⟩ (c :: (cs ++ rest)) :=
        run_cons hspace _
      _ = run ⟨(p.after ' ').after c, .value (Gathered.add ([], false) c).1
            (Gathered.add ([], false) c).2, key.toList, items⟩ (cs ++ rest) :=
        run_cons hfirst _
      _ = run ⟨p', .value value.toList.reverse false, key.toList, items⟩ rest := hrun rest

/-- A line that is begun between two others is read completely. -/
theorem run_line {i : Item} (h : i.Writable) {m : Mode} (hm : AtLine m) (p : Position)
    (items : List Item) :
    ∃ s, Complete i items s ∧
      ∀ rest, run ⟨p, m, [], items⟩ (i.line.toList ++ rest) = s.run rest := by
  cases i with
  | header name => exact run_header h hm p items
  | assign key value =>
    obtain ⟨hkey, hvalue⟩ := h
    obtain ⟨p', hrun⟩ := run_key hkey hm p items
    obtain ⟨s, hcomplete, hrun'⟩ := run_value hvalue p' key items
    refine ⟨s, hcomplete, fun rest => ?_⟩
    have hline : (Item.assign key value).line.toList ++ rest =
        key.toList ++ ' ' :: '=' :: ' ' :: (value.toList ++ rest) := by
      simp [Item.line]
    rw [hline, hrun, hrun']

/-! ## Reading a document -/

/-- After lines that are all ended, the reader is between two lines again. -/
theorem run_lines {d : Document} (h : ∀ i ∈ d, i.Writable) {m : Mode} (hm : AtLine m) (p : Position)
    (items : List Item) :
    ∃ p' m', AtLine m' ∧ ∀ rest, run ⟨p, m, [], items⟩ (d.text.toList ++ rest) =
      run ⟨p', m', [], d.reverse ++ items⟩ rest := by
  induction d generalizing p m items with
  | nil => exact ⟨p, m, hm, fun _ => rfl⟩
  | cons i d ih =>
    obtain ⟨s, ⟨⟨p₁, hnewline⟩, -⟩, hline⟩ := run_line (h i (by simp)) hm p items
    obtain ⟨p₂, m₂, hm₂, hrun⟩ := ih (fun j hj => h j (by simp [hj])) (.inr rfl) p₁ (i :: items)
    refine ⟨p₂, m₂, hm₂, fun rest => ?_⟩
    have htext : (Document.text (i :: d)).toList ++ rest =
        i.line.toList ++ '\n' :: ((Document.text d).toList ++ rest) := by
      simp [Document.text, String.join_cons]
    rw [htext, hline, run_cons hnewline, hrun, List.reverse_cons, List.append_assoc]
    rfl

end State

theorem Document.text_append (d d' : Document) : Document.text (d ++ d') = d.text ++ d'.text := by
  rw [Document.text, List.map_append, String.join_append]
  rfl

theorem Document.ofText_eq_ok {text : String} {s : State} {d : Document}
    (hrun : State.start.run text.toList = .ok s)
    (hfinish : ∃ s', s.finish = .ok s' ∧ s'.items = d.reverse) : Document.ofText text = .ok d := by
  obtain ⟨s', hs', hitems⟩ := hfinish
  rw [Document.ofText, hrun]
  change (do let s ← s.finish; return s.items.reverse) = _
  rw [hs']
  exact congrArg Except.ok (by rw [hitems, List.reverse_reverse])

/-- A document is read back from its text, with or without the last line break. -/
theorem Document.ofText_text {d : Document} (h : ∀ i ∈ d, i.Writable) {text : String}
    (htext : text = d.text ∨ text ++ "\n" = d.text) : Document.ofText text = .ok d := by
  rcases htext with rfl | htext
  · obtain ⟨p, m, hm, hrun⟩ := State.run_lines h (.inl rfl) .start []
    refine Document.ofText_eq_ok ?_ ?_ (s := ⟨p, m, [], d.reverse ++ []⟩)
    · have hall := hrun []
      rwa [List.append_nil] at hall
    · refine ⟨⟨p, m, [], d.reverse ++ []⟩, ?_, by simp⟩
      rcases hm with rfl | rfl <;> rfl
  · rcases List.eq_nil_or_concat d with rfl | ⟨d, i, rfl⟩
    · simp [Document.text] at htext
    · rw [List.concat_eq_append] at h htext ⊢
      obtain ⟨p, m, hm, hrun⟩ := State.run_lines (d := d) (fun j hj => h j (by simp [hj])) (.inl rfl)
        .start []
      obtain ⟨s, ⟨-, s', hfinish, hitems⟩, hline⟩ :=
        State.run_line (h i (by simp)) hm p (d.reverse ++ [])
      have hlist : text.toList = (Document.text d).toList ++ i.line.toList := by
        rw [Document.text_append] at htext
        have hlist : text.toList ++ ['\n'] =
            ((Document.text d).toList ++ i.line.toList) ++ ['\n'] := by
          simpa [Document.text] using congrArg String.toList htext
        exact List.append_cancel_right hlist
      refine Document.ofText_eq_ok (s := s) ?_ ⟨s', hfinish, by simp [hitems]⟩
      have hlast := hline []
      rw [List.append_nil i.line.toList] at hlast
      rw [hlist]
      exact (hrun i.line.toList).trans hlast

end BuildServer.Ini
