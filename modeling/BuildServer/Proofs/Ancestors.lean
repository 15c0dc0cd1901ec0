-- SUMMARY: Paths of directories in directories, and that their ancestors are the paths on the way to them.
import BuildServer.Proofs.Path

/-!
# Ancestors

The path of something in a directory is the path of the directory joined with a
name. The lexical ancestors of such a path are therefore, nearest first, the
paths of the directories on the way, whatever the first of them is written like.

The ancestors of any path at all are what is left when the path is cut off behind
one of its names, or behind nothing.
-/

namespace BuildServer.Path

/-! ## Names under a directory -/

/-- A name that, at the end of a path, leads to what has this name. -/
structure Ordinary (name : String) : Prop where
  ne_empty : name ≠ ""
  ne_dot : name ≠ "."
  ne_up : name ≠ ".."
  no_slash : '/' ∉ name.toList

namespace Ordinary

variable {name : String} (h : Ordinary name)

include h

theorem not_isAbsolute : isAbsolute name = false := by
  rw [isAbsolute, beq_eq_false_iff_ne]
  exact fun hhead => h.no_slash (List.mem_of_head? hhead)

theorem segments_eq : segments name = [name] :=
  segments_eq_singleton h.no_slash

theorem not_idle (kept : Bool) : isIdle kept name = false := by
  simp [isIdle, h.ne_empty, h.ne_dot]

theorem toList_ne_nil : name.toList ≠ [] := by
  simpa using h.ne_empty

end Ordinary

/-- The path that leads from `root` over the names, the last one first. -/
def under (root : String) : List String → String
  | [] => root
  | name :: up => join (under root up) name

/-- The path ends with a slash. -/
def isOpen (p : String) : Bool :=
  p.toList.getLast? == some '/'

theorem join_relative {a b : String} (ha : a ≠ "") (hb : isAbsolute b = false) :
    join a b = if isOpen a then a ++ b else a ++ "/" ++ b := by
  have hne : a.toList ≠ [] := by simpa using ha
  rw [join, if_neg (by simp [hb])]
  simp [isOpen, hne]

/-- The segments of a path without the empty one that a final slash makes. -/
def stem (p : String) : List String :=
  if isOpen p then (segments p).dropLast else segments p

theorem segments_of_isOpen {p : String} (h : isOpen p) : segments p = stem p ++ [""] := by
  rw [isOpen, beq_iff_eq] at h
  obtain ⟨cs, hcs⟩ := List.getLast?_eq_some_iff.mp h
  have hp : p = String.ofList cs ++ "/" := by
    rw [← String.toList_inj, hcs]
    simp
  have hopen : isOpen p := by simp [isOpen, h]
  rw [stem, if_pos hopen, hp, segments_slash_end, List.dropLast_concat]

theorem segments_of_not_isOpen {p : String} (h : isOpen p = false) : segments p = stem p := by
  rw [stem, h]
  rfl

/-- In front of its first slash an absolute path has an empty segment. -/
theorem segments_of_isAbsolute {p : String} (h : isAbsolute p) :
    ∃ rest, segments p = "" :: segments rest := by
  rw [isAbsolute, beq_iff_eq] at h
  obtain ⟨cs, hcs⟩ := List.head?_eq_some_iff.mp h
  have hp : p = "" ++ "/" ++ String.ofList cs := by
    rw [← String.toList_inj, hcs]
    simp
  refine ⟨String.ofList cs, ?_⟩
  rw [hp, segments_append_slash]
  rfl

theorem stem_of_isAbsolute {p : String} (h : isAbsolute p) : ∃ segs, stem p = "" :: segs := by
  obtain ⟨rest, hsegments⟩ := segments_of_isAbsolute h
  rw [stem, hsegments]
  split
  · exact ⟨_, List.dropLast_cons_of_ne_nil (segments_ne_nil _)⟩
  · exact ⟨_, rfl⟩

/-- Joining appends segments. -/
theorem segments_join {a b : String} (ha : a ≠ "") (hb : isAbsolute b = false) :
    segments (join a b) = stem a ++ segments b := by
  rw [join_relative ha hb]
  cases hopen : isOpen a with
  | true =>
    rw [isOpen, beq_iff_eq] at hopen
    obtain ⟨cs, hcs⟩ := List.getLast?_eq_some_iff.mp hopen
    have ha' : a = String.ofList cs ++ "/" := by
      rw [← String.toList_inj, hcs]
      simp
    have hstem : stem a ++ [""] = segments (String.ofList cs) ++ [""] := by
      rw [← segments_of_isOpen (by simp [isOpen, hopen]), ha', segments_slash_end]
    rw [if_pos rfl, List.append_cancel_right hstem, ha', segments_append_slash]
  | false => rw [if_neg (by simp), segments_append_slash, segments_of_not_isOpen hopen]

theorem isOpen_join (a : String) {name : String} (h : Ordinary name) :
    isOpen (join a name) = false := by
  have hlast : (join a name).toList.getLast? = name.toList.getLast? := by
    unfold join
    rw [if_neg (by simp [h.not_isAbsolute])]
    split <;> rw [String.toList_append, List.getLast?_append,
      List.getLast?_eq_some_getLast h.toList_ne_nil, Option.some_or]
  rw [isOpen, hlast, beq_eq_false_iff_ne]
  exact fun hslash => h.no_slash (List.mem_of_getLast? hslash)

theorem join_ordinary_ne_empty (a : String) {name : String} (h : Ordinary name) :
    join a name ≠ "" := by
  unfold join
  rw [if_neg (by simp [h.not_isAbsolute])]
  split <;> simp [h.ne_empty]

theorem isOpen_under (root : String) {name : String} (hname : Ordinary name) (up : List String) :
    isOpen (under root (name :: up)) = false :=
  isOpen_join _ hname

section Under

variable {root : String} (hroot : root ≠ "")

include hroot

theorem under_ne_empty (up : List String) : under root up ≠ "" := by
  induction up with
  | nil => exact hroot
  | cons name up ih => exact join_ne_empty ih name

theorem isAbsolute_join {b : String} (hb : isAbsolute b = false) :
    isAbsolute (join root b) = isAbsolute root := by
  rw [join_relative hroot hb]
  split
  · exact isAbsolute_append hroot b
  · rw [String.append_assoc]
    exact isAbsolute_append hroot _

theorem isAbsolute_under {up : List String} (h : ∀ name ∈ up, Ordinary name) :
    isAbsolute (under root up) = isAbsolute root := by
  induction up with
  | nil => rfl
  | cons name up ih =>
    obtain ⟨hname, hup⟩ := List.forall_mem_cons.mp h
    rw [under, isAbsolute_join (under_ne_empty hroot up) hname.not_isAbsolute, ih hup]

theorem stem_under {up : List String} (h : ∀ name ∈ up, Ordinary name) :
    stem (under root up) = stem root ++ up.reverse := by
  induction up with
  | nil => simp [under]
  | cons name up ih =>
    obtain ⟨hname, hup⟩ := List.forall_mem_cons.mp h
    have hne := under_ne_empty hroot up
    rw [under, ← segments_of_not_isOpen (isOpen_join _ hname),
      segments_join hne hname.not_isAbsolute, ih hup, hname.segments_eq, List.append_assoc,
      List.reverse_cons]

theorem segments_under {name : String} {up : List String} (h : ∀ n ∈ name :: up, Ordinary n) :
    segments (under root (name :: up)) = stem root ++ (name :: up).reverse := by
  rw [segments_of_not_isOpen (isOpen_under root (h name List.mem_cons_self) up), stem_under hroot h]

end Under

/-! ## Ancestors -/

theorem ofSegments_segments (p : String) : ofSegments (segments p) = p := by
  rw [← String.toList_inj, ofSegments, segments, String.toList_intercalate, List.map_map]
  have hid : String.toList ∘ String.ofList = id := by
    funext cs
    simp
  rw [hid, List.map_id]
  exact List.intercalate_splitOn ..

theorem stems_append (kept : Bool) (before segs more : List String) :
    stems kept before (segs ++ more) = stems kept before segs ++ stems kept (before ++ segs) more := by
  induction segs generalizing before with
  | nil => simp [stems]
  | cons seg segs ih =>
    rw [List.cons_append, stems, stems]
    split <;> simp [ih]

theorem stems_ordinary (kept : Bool) (before : List String) {name : String} (h : Ordinary name) :
    stems kept before [name] = [before ++ [name]] := by
  simp [stems, h.not_idle]

/-- The paths over the names and over all but the last, all but the last two and
    so on, down to the first name. -/
def chain (root : String) : List String → List String
  | [] => []
  | name :: up => under root (name :: up) :: chain root up

/-- The stems of names, each written as a path, are the paths on the way. -/
theorem map_stems_ordinary {root : String} {kept : Bool} {before : List String}
    (write : List String → String) {up : List String} (h : ∀ n ∈ up, Ordinary n)
    (hwrite : ∀ ns, ns ≠ [] → ns <:+ up → write (before ++ ns.reverse) = under root ns) :
    ((stems kept before up.reverse).map write).reverse = chain root up := by
  induction up with
  | nil => rfl
  | cons name up ih =>
    obtain ⟨hname, hup⟩ := List.forall_mem_cons.mp h
    have hlast : write (before ++ up.reverse ++ [name]) = under root (name :: up) := by
      have hall := hwrite (name :: up) (by simp) List.suffix_rfl
      rwa [List.reverse_cons, ← List.append_assoc] at hall
    rw [List.reverse_cons, stems_append, stems_ordinary _ _ hname, List.map_append,
      List.reverse_append, List.map_singleton, hlast,
      ih hup fun ns hne hns => hwrite ns hne (hns.trans (List.suffix_cons ..))]
    rfl

/-- The ancestors of a path under `root` begin with the paths on the way to it. -/
theorem ancestors_under {root : String} (hroot : root ≠ "") {name : String} {up : List String}
    (h : ∀ n ∈ name :: up, Ordinary n) :
    ∃ more, ancestors (under root (name :: up)) = chain root up ++ more := by
  have hsegments {ns : List String} (hne : ns ≠ []) (hns : ns <:+ name :: up) :
      segments (under root ns) = stem root ++ ns.reverse := by
    obtain ⟨last, ns, rfl⟩ := List.exists_cons_of_ne_nil hne
    exact segments_under hroot fun n hn => h n (hns.subset hn)
  have hwrite {ns : List String} (hne : ns ≠ []) (hns : ns <:+ name :: up) :
      ofSegments (stem root ++ ns.reverse) = under root ns := by
    rw [← hsegments hne hns, ofSegments_segments]
  -- What is found on the way, in front of it the stems of `root` itself.
  suffices hfound : ∃ early : List String,
      (if isAbsolute (under root (name :: up)) then
        (stems false [] (segments (under root (name :: up))).tail).map fun s => "/" ++ ofSegments s
      else (stems true [] (segments (under root (name :: up)))).map ofSegments) =
        early ++ (chain root (name :: up)).reverse by
    obtain ⟨early, hearly⟩ := hfound
    rw [ancestors, hearly]
    simp only [List.reverse_append, List.reverse_reverse, chain, List.cons_append]
    exact ⟨_, List.append_assoc ..⟩
  rw [hsegments (by simp) List.suffix_rfl]
  split
  · next habs =>
    rw [isAbsolute_under hroot h] at habs
    obtain ⟨segs, hsegs⟩ := stem_of_isAbsolute habs
    rw [hsegs, List.cons_append, List.tail_cons, stems_append, List.map_append]
    have hslash : ∀ ns, ns ≠ [] → ns <:+ name :: up →
        "/" ++ ofSegments ([] ++ segs ++ ns.reverse) = under root ns := by
      intro ns hne hns
      rw [← hwrite hne hns, hsegs, List.cons_append, ofSegments, ofSegments,
        String.intercalate_cons_of_ne_nil (by simp [hne]), String.empty_append, List.nil_append]
    refine ⟨_, congrArg _ ?_⟩
    rw [← map_stems_ordinary (fun s => "/" ++ ofSegments s) h hslash, List.reverse_reverse]
  · rw [stems_append, List.map_append]
    refine ⟨_, congrArg _ ?_⟩
    rw [← map_stems_ordinary ofSegments h fun ns hne hns => hwrite hne hns, List.reverse_reverse]
    rfl

/-! ## Cuts -/

/-- `path` is `goal` or a lexical ancestor of it. -/
def AtOrAbove (path goal : String) : Prop :=
  components path <+: components goal

theorem AtOrAbove.refl (path : String) : AtOrAbove path path :=
  List.prefix_rfl

theorem not_mem_of_mem_segments {p seg : String} (h : seg ∈ segments p) : '/' ∉ seg.toList := by
  obtain ⟨cs, hcs, rfl⟩ := List.mem_map.mp h
  rw [String.toList_ofList]
  clear h
  generalize p.toList = text at hcs
  induction text generalizing cs with
  | nil => simp_all
  | cons c text ih =>
    obtain ⟨piece, pieces, hpieces⟩ := List.exists_cons_of_ne_nil (List.splitOn_ne_nil '/' text)
    rw [List.splitOn_cons_eq_if_modifyHead, hpieces] at hcs
    rw [hpieces] at ih
    split at hcs
    · rcases List.mem_cons.mp hcs with rfl | hcs
      · exact List.not_mem_nil
      · exact ih cs hcs
    · next hc =>
      rw [List.modifyHead_cons] at hcs
      rcases List.mem_cons.mp hcs with rfl | hcs
      · rw [List.mem_cons, not_or]
        exact ⟨fun heq => hc (by simp [← heq]), ih piece List.mem_cons_self⟩
      · exact ih cs (List.mem_cons_of_mem _ hcs)

theorem segments_ofSegments {segs : List String} (hne : segs ≠ [])
    (h : ∀ seg ∈ segs, '/' ∉ seg.toList) : segments (ofSegments segs) = segs := by
  have hslash : "/".toList = ['/'] := rfl
  have hid : String.ofList ∘ String.toList = id := by
    funext s
    simp
  rw [segments, ofSegments, String.toList_intercalate, hslash, List.splitOn_intercalate,
    List.map_map, hid, List.map_id]
  · rintro _ hl
    obtain ⟨seg, hseg, rfl⟩ := List.mem_map.mp hl
    exact h seg hseg
  · simpa using hne

theorem ofSegments_cons (seg : String) {segs : List String} (h : segs ≠ []) :
    ofSegments (seg :: segs) = seg ++ "/" ++ ofSegments segs :=
  String.intercalate_cons_of_ne_nil h

theorem ofSegments_append {segs more : List String} (hsegs : segs ≠ []) (hmore : more ≠ []) :
    ofSegments (segs ++ more) = ofSegments segs ++ "/" ++ ofSegments more := by
  induction segs with
  | nil => exact absurd rfl hsegs
  | cons seg segs ih =>
    rw [List.cons_append, ofSegments_cons seg (by simp [hmore])]
    cases segs with
    | nil => simp [ofSegments]
    | cons next segs =>
      rw [ih (by simp), ofSegments_cons seg (by simp)]
      simp only [String.append_assoc]

/-- A stem goes on from what is before it and ends with a segment that is not empty. -/
theorem of_mem_stems {kept : Bool} {before segs stem : List String}
    (h : stem ∈ stems kept before segs) :
    stem <+: before ++ segs ∧ ∃ front last, stem = front ++ [last] ∧ last ≠ "" := by
  induction segs generalizing before with
  | nil => cases h
  | cons seg segs ih =>
    rw [List.append_cons]
    rw [stems] at h
    split at h
    · exact ih h
    · next hidle =>
      rcases List.mem_cons.mp h with rfl | h
      · refine ⟨List.prefix_append .., before, seg, rfl, ?_⟩
        rintro rfl
        exact hidle rfl
      · exact ih h

/-- `path` is what `goal` is up to the end of one of its segments that is not empty. -/
def Cut (path goal : String) : Prop :=
  ∃ front last, last ≠ "" ∧ front ++ [last] <+: segments goal ∧ path = ofSegments (front ++ [last])

theorem cut_of_mem_ancestors {path goal : String} (h : path ∈ ancestors goal) :
    Cut path goal ∨ path = if isAbsolute goal then "/" else "" := by
  have hstems (before : List String) {kept : Bool} {segs stem : List String}
      (hstem : stem ∈ stems kept [] segs) (hgoal : before ++ segs = segments goal) :
      Cut (ofSegments (before ++ stem)) goal := by
    obtain ⟨hfront, front, last, rfl, hlast⟩ := of_mem_stems hstem
    refine ⟨before ++ front, last, hlast, ?_, by rw [List.append_assoc]⟩
    rw [← hgoal, List.append_assoc]
    exact (List.prefix_append_right_inj _).mpr hfront
  unfold ancestors at h
  extract_lets found at h
  have hfound : ∀ p ∈ found, Cut p goal := by
    intro p hp
    simp only [found] at hp
    split at hp
    · next habs =>
      obtain ⟨stem, hstem, rfl⟩ := List.mem_map.mp hp
      have hne : stem ≠ [] := by
        obtain ⟨-, front, last, rfl, -⟩ := of_mem_stems hstem
        simp
      obtain ⟨rest, hrest⟩ := segments_of_isAbsolute habs
      have htail : [""] ++ (segments goal).tail = segments goal := by
        rw [hrest]
        rfl
      have hcut := hstems [""] hstem htail
      rwa [List.singleton_append, ofSegments_cons "" hne, String.empty_append] at hcut
    · obtain ⟨stem, hstem, rfl⟩ := List.mem_map.mp hp
      exact hstems [] hstem rfl
  split at h
  · cases h
  · next hreverse =>
    rcases List.mem_append.mp h with hproper | hroot
    · left
      apply hfound
      rw [← List.mem_reverse, hreverse]
      exact List.mem_cons_of_mem _ hproper
    · exact .inr (List.mem_singleton.mp hroot)

theorem Cut.segments_eq {path goal : String} (h : Cut path goal) :
    ∃ front last, last ≠ "" ∧ segments path = front ++ [last] := by
  obtain ⟨front, last, hlast, hfront, rfl⟩ := h
  refine ⟨front, last, hlast, segments_ofSegments (by simp) fun seg hseg => ?_⟩
  exact not_mem_of_mem_segments (hfront.subset hseg)

theorem Cut.ne_empty {path goal : String} (h : Cut path goal) : path ≠ "" := by
  obtain ⟨front, last, hlast, hsegments⟩ := h.segments_eq
  rintro rfl
  have hempty : [] ++ [""] = front ++ [last] := hsegments
  exact hlast (List.singleton_inj.mp (List.append_inj' hempty rfl).2.symm)

theorem Cut.isOpen_eq {path goal : String} (h : Cut path goal) : isOpen path = false := by
  obtain ⟨front, last, hlast, hsegments⟩ := h.segments_eq
  rw [Bool.eq_false_iff]
  intro hopen
  rw [segments_of_isOpen hopen] at hsegments
  have hend := (List.append_inj' hsegments rfl).2
  exact hlast (List.singleton_inj.mp hend).symm

theorem Cut.atOrAbove {path goal : String} (h : Cut path goal) : AtOrAbove path goal := by
  have hne := h.ne_empty
  obtain ⟨front, last, -, ⟨more, hmore⟩, rfl⟩ := h
  rw [AtOrAbove, ← ofSegments_segments goal, ← hmore]
  by_cases hnil : more = []
  · simp only [hnil, List.append_nil, List.prefix_rfl]
  · rw [ofSegments_append (by simp) hnil, components_append_slash, components_slash_end hne]
    exact List.prefix_append ..

theorem atOrAbove_of_mem_ancestors {path goal : String} (h : path ∈ ancestors goal) :
    AtOrAbove path goal := by
  rcases cut_of_mem_ancestors h with hcut | rfl
  · exact hcut.atOrAbove
  · split
    · next habs =>
      rw [AtOrAbove, components, if_pos (by decide), components, if_pos habs]
      have hroot : names (segments "/") = [] := by decide
      rw [hroot]
      exact List.prefix_append ["/"] _
    · exact List.nil_prefix

end BuildServer.Path
