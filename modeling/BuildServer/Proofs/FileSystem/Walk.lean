-- SUMMARY: Walks without links: which places a path leads through, and that nothing else matters for where it leads.
import BuildServer.FileSystem.Change
import BuildServer.Proofs.Path

/-!
# Walks without links

Where there are no links, the places that a path leads through can be read off
the path. A walk looks at these places only, so it ends in the same way on two
file systems that agree there.
-/

namespace BuildServer.FileSystem

/-! ## What is where -/

theorem getElem?_set (fs : FileSystem) (p : Place) (n : Node) (q : Place) :
    (fs.set p n).nodes[q]? = if p = q then some n else fs.nodes[q]? := by
  simp [set, Std.ExtTreeMap.getElem?_insert]

@[simp] theorem cwd_set (fs : FileSystem) (p : Place) (n : Node) : (fs.set p n).cwd = fs.cwd := rfl

theorem ext_getElem? {fs fs' : FileSystem} (hcwd : fs.cwd = fs'.cwd)
    (h : ∀ q : Place, fs.nodes[q]? = fs'.nodes[q]?) : fs = fs' := by
  obtain ⟨nodes, cwd⟩ := fs
  obtain ⟨nodes', cwd'⟩ := fs'
  obtain rfl : cwd = cwd' := hcwd
  obtain rfl : nodes = nodes' := Std.ExtTreeMap.ext_getElem? fun {q} => h q
  rfl

@[simp] theorem node?_root (fs : FileSystem) : fs.node? [] = some .directory := rfl

theorem node?_concat (fs : FileSystem) (q : Place) (name : String) :
    fs.node? (q ++ [name]) = fs.nodes[q ++ [name]]? := by
  simp [node?]

/-- Whatever is there is in a directory, and nothing is a link. -/
structure Plain (fs : FileSystem) : Prop where
  in_directory : ∀ {q name node}, fs.node? (q ++ [name]) = some node → fs.node? q = some .directory
  no_link : ∀ (q : Place) target, fs.nodes[q]? ≠ some (.link target)

/-- It does no harm to put something in a directory, if it is no link and does not
    replace what has to be a directory. -/
theorem Plain.set {fs : FileSystem} (h : fs.Plain) {q : Place} {name : String} {node : Node}
    (hq : fs.node? q = some .directory) (hnode : ∀ target, node ≠ .link target)
    (hfree : node = .directory ∨ fs.node? (q ++ [name]) = none) :
    (fs.set (q ++ [name]) node).Plain where
  in_directory := by
    intro q' name' node' hnode'
    have keeps : fs.node? q' = some .directory →
        (fs.set (q ++ [name]) node).node? q' = some .directory := by
      intro hq'
      obtain rfl | ⟨up, last, rfl⟩ := List.eq_nil_or_concat q'
      · rfl
      · rw [List.concat_eq_append, node?_concat] at hq' ⊢
        rw [getElem?_set, hq']
        split
        · next heq =>
          rw [heq, node?_concat, hq'] at hfree
          rw [hfree.resolve_right nofun]
        · rfl
    apply keeps
    rw [node?_concat, getElem?_set] at hnode'
    split at hnode'
    · next heq =>
      obtain ⟨rfl, -⟩ := List.append_inj' heq rfl
      exact hq
    · rw [← node?_concat] at hnode'
      exact h.in_directory hnode'
  no_link := by
    intro q' target
    rw [getElem?_set]
    split
    · simpa using hnode target
    · exact h.no_link q' target

/-- Nothing is below a place where nothing is. -/
theorem Plain.nothing_below {fs : FileSystem} (h : fs.Plain) {q : Place} (hq : fs.node? q = none)
    (names : List String) : fs.node? (q ++ names) = none := by
  induction names generalizing q with
  | nil => rwa [List.append_nil]
  | cons name names ih =>
    rw [← List.singleton_append, ← List.append_assoc]
    apply ih
    cases hnode : fs.node? (q ++ [name]) with
    | none => rfl
    | some node =>
      rw [h.in_directory hnode] at hq
      cases hq

/-! ## The way of a path -/

/-- The places that a walk over segments leads through. -/
def trail (here : Place) : List String → List Place
  | [] => []
  | seg :: rest =>
    if seg = "" ∨ seg = "." then trail here rest
    else if seg = ".." then trail here.dropLast rest
    else (here ++ [seg]) :: trail (here ++ [seg]) rest

/-- Without a step up, everything on the trail is below. -/
theorem prefix_of_mem_trail {here q : Place} {segs : List String} (hup : ".." ∉ segs)
    (hq : q ∈ trail here segs) : here <+: q := by
  induction here, segs using trail.induct with
  | case1 => simp [trail] at hq
  | case2 here seg rest hidle ih =>
    rw [trail, if_pos hidle] at hq
    exact ih (fun h => hup (List.mem_cons_of_mem _ h)) hq
  | case3 => exact absurd List.mem_cons_self hup
  | case4 here seg rest hidle hseg ih =>
    rw [trail, if_neg hidle, if_neg hseg, List.mem_cons] at hq
    obtain rfl | hq := hq
    · exact List.prefix_append ..
    · exact (List.prefix_append ..).trans (ih (fun h => hup (List.mem_cons_of_mem _ h)) hq)

/-- Where the walk over a path begins. -/
def origin (fs : FileSystem) (path : String) : Place :=
  if Path.isAbsolute path then [] else fs.cwd

/-- The places that a path leads through. -/
def way (fs : FileSystem) (path : String) : List Place :=
  trail (fs.origin path) (Path.segments path)

/-- What is wrong with a path that is not followed at all. -/
def fault (path : String) : Option IoError :=
  if path.toList.contains '\x00' then some .nulInPath
  else if path.isEmpty then some .notFound
  else if pathLimit ≤ (Text.utf8Encode path).length then some .nameTooLong
  else none

section Steps

variable {fs : FileSystem} {follow : Bool} {here : Place} {seg : String}
variable {jump : Place → List String → Except IoError Target}

theorem steps_idle (h : seg = "" ∨ seg = ".") (rest : List String) :
    fs.steps follow jump here (seg :: rest) = fs.steps follow jump here rest := by
  rw [steps, if_pos h]

theorem steps_up (rest : List String) :
    fs.steps follow jump here (".." :: rest) = fs.steps follow jump here.dropLast rest := by
  rw [steps, if_neg (by decide), if_pos rfl]

theorem steps_name (hidle : ¬ (seg = "" ∨ seg = ".")) (hup : seg ≠ "..") (rest : List String) :
    fs.steps follow jump here (seg :: rest) =
      if nameLimit < (Text.utf8Encode seg).length then .error .nameTooLong
      else match fs.nodes[here ++ [seg]]? with
        | none =>
          if rest.all (· == "") then .ok (.vacant here seg !rest.isEmpty) else .error .notFound
        | some .directory => fs.steps follow jump (here ++ [seg]) rest
        | some (.link target) =>
          if rest.isEmpty && !follow then .ok (.found (here ++ [seg]) (.link target))
          else jump (if Path.isAbsolute target then [] else here) (Path.segments target ++ rest)
        | some node =>
          if rest.isEmpty then .ok (.found (here ++ [seg]) node) else .error .notADirectory := by
  rw [steps, if_neg hidle]
  exact if_neg hup

/-- A walk over a name that ends at a node goes on from a directory or behind a link, or the
    name is the last one and the node has it. -/
theorem steps_name_found (hidle : ¬ (seg = "" ∨ seg = ".")) (hup : seg ≠ "..") {rest : List String}
    {place : Place} {node : Node}
    (h : fs.steps follow jump here (seg :: rest) = .ok (.found place node)) :
    ¬ nameLimit < (Text.utf8Encode seg).length ∧
      (fs.node? (here ++ [seg]) = some .directory ∧
          fs.steps follow jump (here ++ [seg]) rest = .ok (.found place node) ∨
        (∃ target, fs.node? (here ++ [seg]) = some (.link target) ∧
          ¬ (rest.isEmpty && !follow) = true ∧
          jump (if Path.isAbsolute target then [] else here) (Path.segments target ++ rest) =
            .ok (.found place node)) ∨
        fs.node? (here ++ [seg]) = some node ∧ node ≠ .directory ∧ rest = [] ∧
          place = here ++ [seg] ∧ ∀ target, node = .link target → follow = false) := by
  rw [steps_name hidle hup] at h
  split at h
  · cases h
  next hlong =>
  refine ⟨hlong, ?_⟩
  rw [node?_concat]
  cases hnode : fs.nodes[here ++ [seg]]? with
  | none =>
    rw [hnode] at h
    dsimp only at h
    split at h <;> cases h
  | some found =>
    rw [hnode] at h
    cases found with
    | directory => exact .inl ⟨rfl, h⟩
    | link target =>
      dsimp only at h
      by_cases hlast : (rest.isEmpty && !follow) = true
      · rw [if_pos hlast] at h
        obtain ⟨⟩ := h
        simp only [Bool.and_eq_true, List.isEmpty_iff, Bool.not_eq_true'] at hlast
        exact .inr (.inr ⟨rfl, nofun, hlast.1, rfl, fun _ _ => hlast.2⟩)
      · rw [if_neg hlast] at h
        exact .inr (.inl ⟨target, rfl, hlast, h⟩)
    | _ =>
      dsimp only at h
      split at h
      · next hlast =>
        obtain ⟨⟩ := h
        exact .inr (.inr ⟨rfl, nofun, List.isEmpty_iff.mp hlast, rfl, nofun⟩)
      · cases h

/-- Slashes at the end of a path lead nowhere else. -/
theorem steps_blank {segs : List String} (h : segs.all (· == "")) :
    fs.steps follow jump here segs = .ok (.found here .directory) := by
  induction segs with
  | nil => rfl
  | cons seg rest ih =>
    rw [List.all_cons, Bool.and_eq_true, beq_iff_eq] at h
    rw [steps_idle (.inl h.1), ih h.2]

theorem walk_eq (follow : Bool) (path : String) :
    fs.walk follow path = match fault path with
      | some e => .error e
      | none => fs.walkFrom follow linkLimit (fs.origin path) (Path.segments path) := by
  rw [walk, fault]
  split
  · rfl
  split
  · rfl
  split
  · rfl
  · rfl

theorem stat_eq_ok_iff {path : String} {place : Place} {node : Node} :
    fs.stat path = .ok (place, node) ↔
      fault path = none ∧
        fs.walkFrom true linkLimit (fs.origin path) (Path.segments path) = .ok (.found place node) := by
  rw [stat, walk_eq]
  constructor
  · intro h
    cases hfault : fault path with
    | some e =>
      rw [hfault] at h
      cases h
    | none =>
      rw [hfault] at h
      refine ⟨rfl, ?_⟩
      dsimp only at h
      split at h
      · next hfound =>
        obtain ⟨⟩ := h
        exact hfound
      · cases h
      · cases h
  · rintro ⟨hfault, hfound⟩
    rw [hfault]
    dsimp only
    rw [hfound]

/-! ## Links at the end -/

/-- A link is at the end of the path. -/
def isLink (fs : FileSystem) (path : String) : Bool :=
  match fs.walk false path with
  | .ok (.found _ (.link _)) => true
  | _ => false

/-- Whether links at the end are followed makes no difference where there is none. -/
theorem steps_follow {jump' : Place → List String → Except IoError Target} {segs : List String}
    (hjump : ∀ here segs, (∀ place target, jump here segs ≠ .ok (.found place (.link target))) →
      jump' here segs = jump here segs)
    (hlink : ∀ place target, fs.steps false jump here segs ≠ .ok (.found place (.link target))) :
    fs.steps true jump' here segs = fs.steps false jump here segs := by
  induction here, segs using trail.induct with
  | case1 => rfl
  | case2 here seg rest hidle ih =>
    rw [steps_idle hidle] at hlink ⊢
    rw [steps_idle hidle, ih hlink]
  | case3 here rest hidle ih =>
    rw [steps_up] at hlink ⊢
    rw [steps_up, ih hlink]
  | case4 here seg rest hidle hup ih =>
    rw [steps_name hidle hup] at hlink ⊢
    rw [steps_name hidle hup]
    by_cases hlong : nameLimit < (Text.utf8Encode seg).length
    · rw [if_pos hlong, if_pos hlong]
    rw [if_neg hlong] at hlink ⊢
    rw [if_neg hlong]
    cases hnode : fs.nodes[here ++ [seg]]? with
    | none => rfl
    | some node =>
      rw [hnode] at hlink
      cases node with
      | directory => exact ih hlink
      | link target =>
        dsimp only at hlink ⊢
        rw [Bool.not_true, Bool.and_false, if_neg Bool.false_ne_true]
        by_cases hlast : (rest.isEmpty && !false) = true
        · rw [if_pos hlast] at hlink
          exact absurd rfl (hlink _ _)
        · rw [if_neg hlast] at hlink ⊢
          exact hjump _ _ hlink
      | _ => rfl

theorem walkFrom_follow {segs : List String} {links : Nat}
    (hlink : ∀ place target,
      fs.walkFrom false links here segs ≠ .ok (.found place (.link target))) :
    fs.walkFrom true links here segs = fs.walkFrom false links here segs := by
  induction links generalizing here segs with
  | zero => exact steps_follow (fun _ _ _ => rfl) hlink
  | succ links ih => exact steps_follow (fun _ _ => ih) hlink

theorem walk_follow {path : String} (h : fs.isLink path = false) :
    fs.walk true path = fs.walk false path := by
  have hlink : ∀ place target, fs.walk false path ≠ .ok (.found place (.link target)) := by
    intro place target hfound
    rw [isLink, hfound] at h
    cases h
  rw [walk_eq] at hlink ⊢
  rw [walk_eq]
  cases hfault : fault path with
  | some e => rfl
  | none =>
    rw [hfault] at hlink
    exact walkFrom_follow hlink

end Steps

/-- Walk over segments where there are no links. -/
def reach (fs : FileSystem) : Place → List String → Except IoError Target :=
  fs.steps true fun _ _ => .error .tooManyLinks

section Reach

variable {fs fs' : FileSystem} {here place : Place} {seg : String}

@[simp] theorem reach_nil : fs.reach here [] = .ok (.found here .directory) := rfl

theorem reach_idle (h : seg = "" ∨ seg = ".") (rest : List String) :
    fs.reach here (seg :: rest) = fs.reach here rest :=
  steps_idle h rest

theorem reach_up (rest : List String) :
    fs.reach here (".." :: rest) = fs.reach here.dropLast rest :=
  steps_up rest

theorem reach_long (hidle : ¬ (seg = "" ∨ seg = ".")) (hup : seg ≠ "..")
    (hlong : nameLimit < (Text.utf8Encode seg).length) (rest : List String) :
    fs.reach here (seg :: rest) = .error .nameTooLong := by
  rw [reach, steps_name hidle hup, if_pos hlong]

theorem reach_name (hidle : ¬ (seg = "" ∨ seg = ".")) (hup : seg ≠ "..")
    (hlong : ¬ nameLimit < (Text.utf8Encode seg).length) (rest : List String) :
    fs.reach here (seg :: rest) = match fs.nodes[here ++ [seg]]? with
      | none =>
        if rest.all (· == "") then .ok (.vacant here seg !rest.isEmpty) else .error .notFound
      | some .directory => fs.reach (here ++ [seg]) rest
      | some (.link _) => .error .tooManyLinks
      | some node =>
        if rest.isEmpty then .ok (.found (here ++ [seg]) node) else .error .notADirectory := by
  rw [reach, steps_name hidle hup, if_neg hlong]
  cases fs.nodes[here ++ [seg]]? with
  | none => rfl
  | some node => cases node <;> simp

/-- A walk that ends in a directory goes on from a directory with each name. -/
theorem reach_name_directory (hidle : ¬ (seg = "" ∨ seg = ".")) (hup : seg ≠ "..")
    {rest : List String} (h : fs.reach here (seg :: rest) = .ok (.found place .directory)) :
    ¬ nameLimit < (Text.utf8Encode seg).length ∧ fs.nodes[here ++ [seg]]? = some .directory ∧
      fs.reach (here ++ [seg]) rest = .ok (.found place .directory) := by
  obtain ⟨hlong, ⟨hnode, hrest⟩ | ⟨target, -, -, hjump⟩ | ⟨-, hne, -⟩⟩ :=
    steps_name_found hidle hup h
  · rw [node?_concat] at hnode
    exact ⟨hlong, hnode, hrest⟩
  · cases hjump
  · exact absurd rfl hne

/-- A walk looks only at the places that it leads through. -/
theorem reach_congr {segs : List String}
    (h : ∀ q ∈ trail here segs, fs.nodes[q]? = fs'.nodes[q]?) :
    fs.reach here segs = fs'.reach here segs := by
  induction here, segs using trail.induct with
  | case1 => rfl
  | case2 here seg rest hidle ih =>
    rw [trail, if_pos hidle] at h
    rw [reach_idle hidle, reach_idle hidle, ih h]
  | case3 here rest hidle ih =>
    rw [trail, if_neg hidle, if_pos rfl] at h
    rw [reach_up, reach_up, ih h]
  | case4 here seg rest hidle hup ih =>
    rw [trail, if_neg hidle, if_neg hup] at h
    by_cases hlong : nameLimit < (Text.utf8Encode seg).length
    · rw [reach_long hidle hup hlong, reach_long hidle hup hlong]
    · rw [reach_name hidle hup hlong, reach_name hidle hup hlong, h _ List.mem_cons_self,
        ih fun q hq => h q (List.mem_cons_of_mem _ hq)]

/-- A walk on from a directory does not depend on the way to it. -/
theorem reach_append {segs : List String}
    (h : fs.reach here segs = .ok (.found place .directory)) (more : List String) :
    fs.reach here (segs ++ more) = fs.reach place more := by
  induction here, segs using trail.induct with
  | case1 =>
    obtain ⟨⟩ := h
    rfl
  | case2 here seg rest hidle ih =>
    rw [reach_idle hidle] at h
    rw [List.cons_append, reach_idle hidle, ih h]
  | case3 here rest hidle ih =>
    rw [reach_up] at h
    rw [List.cons_append, reach_up, ih h]
  | case4 here seg rest hidle hup ih =>
    obtain ⟨hlong, hnode, hrest⟩ := reach_name_directory hidle hup h
    rw [List.cons_append, reach_name hidle hup hlong, hnode]
    exact ih hrest

/-- An empty segment at the end makes no difference in a directory. -/
theorem reach_of_reach_append_empty {segs : List String}
    (h : fs.reach here (segs ++ [""]) = .ok (.found place .directory)) :
    fs.reach here segs = .ok (.found place .directory) := by
  induction here, segs using trail.induct with
  | case1 =>
    rwa [List.nil_append, reach_idle (.inl rfl)] at h
  | case2 here seg rest hidle ih =>
    rw [List.cons_append, reach_idle hidle] at h
    rw [reach_idle hidle, ih h]
  | case3 here rest hidle ih =>
    rw [List.cons_append, reach_up] at h
    rw [reach_up, ih h]
  | case4 here seg rest hidle hup ih =>
    obtain ⟨hlong, hnode, hrest⟩ := reach_name_directory hidle hup h
    rw [reach_name hidle hup hlong, hnode]
    exact ih hrest

/-- A walk that ends in a directory has led through directories. -/
theorem directory_of_mem_trail {segs : List String}
    (h : fs.reach here segs = .ok (.found place .directory)) :
    ∀ q ∈ trail here segs, fs.nodes[q]? = some .directory := by
  induction here, segs using trail.induct with
  | case1 => simp [trail]
  | case2 here seg rest hidle ih =>
    rw [reach_idle hidle] at h
    rw [trail, if_pos hidle]
    exact ih h
  | case3 here rest hidle ih =>
    rw [reach_up] at h
    rw [trail, if_neg hidle, if_pos rfl]
    exact ih h
  | case4 here seg rest hidle hup ih =>
    obtain ⟨-, hnode, hrest⟩ := reach_name_directory hidle hup h
    rw [trail, if_neg hidle, if_neg hup]
    exact List.forall_mem_cons.mpr ⟨hnode, ih hrest⟩

/-- Walks over plain file systems differ in nothing but where they go. -/
theorem Plain.steps_eq (hfs : fs.Plain) (follow : Bool)
    (jump : Place → List String → Except IoError Target) (segs : List String) :
    fs.steps follow jump here segs = fs.reach here segs := by
  induction here, segs using trail.induct with
  | case1 => rfl
  | case2 here seg rest hidle ih => rw [reach_idle hidle, steps_idle hidle, ih]
  | case3 here rest hidle ih => rw [reach_up, steps_up, ih]
  | case4 here seg rest hidle hup ih =>
    rw [steps_name hidle hup]
    by_cases hlong : nameLimit < (Text.utf8Encode seg).length
    · rw [if_pos hlong, reach_long hidle hup hlong]
    rw [if_neg hlong, reach_name hidle hup hlong, ← ih]
    cases hnode : fs.nodes[here ++ [seg]]? with
    | none => rfl
    | some node =>
      cases node with
      | link target => exact absurd hnode (hfs.no_link _ target)
      | _ => rfl

theorem Plain.walk_eq (hfs : fs.Plain) (follow : Bool) (path : String) :
    fs.walk follow path = match fault path with
      | some e => .error e
      | none => fs.reach (fs.origin path) (Path.segments path) := by
  rw [FileSystem.walk_eq, linkLimit, walkFrom, hfs.steps_eq]

theorem Plain.reach_of_stat (hfs : fs.Plain) {path : String} {node : Node}
    (h : fs.stat path = .ok (place, node)) :
    fault path = none ∧
      fs.reach (fs.origin path) (Path.segments path) = .ok (.found place node) := by
  obtain ⟨hfault, hfound⟩ := stat_eq_ok_iff.mp h
  rw [linkLimit, walkFrom, hfs.steps_eq] at hfound
  exact ⟨hfault, hfound⟩

/-- Where a path leads depends only on the places that it leads through. -/
theorem Plain.stat_congr (hfs : fs.Plain) (hfs' : fs'.Plain) (hcwd : fs.cwd = fs'.cwd)
    {path : String} (h : ∀ q ∈ fs.way path, fs.nodes[q]? = fs'.nodes[q]?) :
    fs.stat path = fs'.stat path := by
  have horigin : fs'.origin path = fs.origin path := by rw [origin, origin, hcwd]
  rw [stat, stat, hfs.walk_eq, hfs'.walk_eq, horigin, reach_congr h]

end Reach

end BuildServer.FileSystem
