-- SUMMARY: Making sure of a directory under another one: from the top down, as far as it goes.
import BuildServer.Proofs.Ancestors
import BuildServer.Proofs.FileSystem.Walk

/-!
# Directories in directories

To make sure that a directory is there, the directories on its way are tried
from the last one up, until one can be created, and are then created downwards.
On a plain file system this is the same as going down from a directory that is
there, creating what is missing, until something is in the way. The second form
shows at once what is looked at and what is changed.
-/

namespace BuildServer.FileSystem

open BuildServer.Path (Ordinary under chain)

/-! ## Downwards -/

/-- Go down from a directory along the names and create what is missing. -/
def makeDirs (fs : FileSystem) (here : Place) : List String → Except IoError Unit × FileSystem
  | [] => (.ok (), fs)
  | name :: rest =>
    if nameLimit < (Text.utf8Encode name).length then (.error .nameTooLong, fs)
    else match fs.nodes[here ++ [name]]? with
      | none => makeDirs (fs.set (here ++ [name]) .directory) (here ++ [name]) rest
      | some .directory => makeDirs fs (here ++ [name]) rest
      | some _ => (.error (if rest.isEmpty then .exists else .notADirectory), fs)

/-- What is at a place, where a vacant one counts as a directory. -/
def settled (fs : FileSystem) (q : Place) : Node :=
  (fs.nodes[q]?).getD .directory

/-- Put a directory at a place if nothing is there. -/
def fill (fs : FileSystem) (q : Place) : FileSystem :=
  match fs.nodes[q]? with
  | none => fs.set q .directory
  | some _ => fs

section MakeDirs

variable {fs : FileSystem} {here : Place} {name : String}

theorem makeDirs_long (hlong : nameLimit < (Text.utf8Encode name).length) (rest : List String) :
    makeDirs fs here (name :: rest) = (.error .nameTooLong, fs) := by
  rw [makeDirs, if_pos hlong]

theorem makeDirs_directory (hlong : ¬ nameLimit < (Text.utf8Encode name).length)
    (hnode : fs.settled (here ++ [name]) = .directory) (rest : List String) :
    makeDirs fs here (name :: rest) =
      makeDirs (fs.fill (here ++ [name])) (here ++ [name]) rest := by
  rw [makeDirs, if_neg hlong, fill]
  rw [settled] at hnode
  cases hplace : fs.nodes[here ++ [name]]? with
  | none => rfl
  | some node =>
    rw [hplace, Option.getD_some] at hnode
    rw [hnode]

theorem makeDirs_blocked (hlong : ¬ nameLimit < (Text.utf8Encode name).length)
    (hnode : fs.settled (here ++ [name]) ≠ .directory) (rest : List String) :
    makeDirs fs here (name :: rest) =
      (.error (if rest.isEmpty then .exists else .notADirectory), fs) := by
  rw [makeDirs, if_neg hlong]
  rw [settled] at hnode
  cases hplace : fs.nodes[here ++ [name]]? with
  | none => exact absurd (by rw [hplace]; rfl) hnode
  | some node =>
    rw [hplace, Option.getD_some] at hnode
    cases node with
    | directory => exact absurd rfl hnode
    | _ => rfl

end MakeDirs

/-! ## What is changed -/

/-- The places of `D` are filled, and nothing else is changed. -/
structure Filled (D : Place → Prop) (fs fs' : FileSystem) : Prop where
  cwd : fs'.cwd = fs.cwd
  filled : ∀ q, D q → fs'.nodes[q]? = some (fs.settled q)
  kept : ∀ q, ¬ D q → fs'.nodes[q]? = fs.nodes[q]?

namespace Filled

variable {D E : Place → Prop} {fs fs' fs'' : FileSystem}

theorem settled_eq (h : Filled D fs fs') (q : Place) : fs'.settled q = fs.settled q := by
  by_cases hD : D q
  · rw [settled, h.filled q hD, Option.getD_some]
  · rw [settled, h.kept q hD, settled]

/-- What was there is still there. -/
theorem getElem?_of_some (h : Filled D fs fs') {q : Place} {node : Node}
    (hq : fs.nodes[q]? = some node) : fs'.nodes[q]? = some node := by
  by_cases hD : D q
  · rw [h.filled q hD, settled, hq, Option.getD_some]
  · rw [h.kept q hD, hq]

/-- A path that leads to a directory still leads there. -/
theorem reach_eq (h : Filled D fs fs') {path : String} {place : Place}
    (hreach : fs.reach (fs.origin path) (Path.segments path) = .ok (.found place .directory)) :
    fs'.reach (fs'.origin path) (Path.segments path) = .ok (.found place .directory) := by
  have horigin : fs'.origin path = fs.origin path := by rw [origin, origin, h.cwd]
  rw [horigin, ← hreach]
  refine reach_congr fun q hq => ?_
  have hq' := directory_of_mem_trail hreach q hq
  rw [hq', h.getElem?_of_some hq']

theorem refl (fs : FileSystem) : Filled (fun _ => False) fs fs :=
  ⟨rfl, fun _ => False.elim, fun _ _ => rfl⟩

theorem trans (h : Filled D fs fs') (h' : Filled E fs' fs'') :
    Filled (fun q => D q ∨ E q) fs fs'' where
  cwd := h'.cwd.trans h.cwd
  filled := by
    intro q hq
    by_cases hE : E q
    · rw [h'.filled q hE, h.settled_eq]
    · rw [h'.kept q hE]
      exact h.filled q (hq.resolve_right hE)
  kept := by
    intro q hq
    rw [not_or] at hq
    rw [h'.kept q hq.2, h.kept q hq.1]

theorem fill (fs : FileSystem) (q : Place) : Filled (· = q) fs (fs.fill q) := by
  rw [FileSystem.fill]
  cases hq : fs.nodes[q]? with
  | none =>
    refine ⟨rfl, ?_, fun q' hq' => ?_⟩
    · rintro _ rfl
      rw [getElem?_set, if_pos rfl, settled, hq, Option.getD_none]
    · rw [getElem?_set, if_neg (Ne.symm hq')]
  | some node =>
    refine ⟨rfl, ?_, fun _ _ => rfl⟩
    rintro _ rfl
    rw [settled, hq, Option.getD_some]

end Filled

theorem trail_cons {name : String} (h : Ordinary name) (here : Place) (rest : List String) :
    trail here (name :: rest) = (here ++ [name]) :: trail (here ++ [name]) rest := by
  rw [trail, if_neg (not_or.mpr ⟨h.ne_empty, h.ne_dot⟩), if_neg h.ne_up]

/-- Going down along the names comes to the same on both file systems and fills
    the places of `D` in both, which are all places on the way if it succeeds. -/
structure Descent (here : Place) (names : List String) (fs fs' : FileSystem) (D : Place → Prop) :
    Prop where
  result : (makeDirs fs here names).1 = (makeDirs fs' here names).1
  on_trail : ∀ q, D q → q ∈ trail here names
  left : Filled D fs (makeDirs fs here names).2
  right : Filled D fs' (makeDirs fs' here names).2
  complete : (makeDirs fs here names).1 = .ok () →
    ∀ q ∈ trail here names, D q ∧ fs.settled q = .directory

/-- How far one gets does not depend on which of the directories are missing. -/
theorem exists_descent {fs fs' : FileSystem} {here : Place} {names : List String}
    (hnames : ∀ n ∈ names, Ordinary n)
    (h : ∀ q ∈ trail here names, fs.settled q = fs'.settled q) :
    ∃ D, Descent here names fs fs' D := by
  induction names generalizing fs fs' here with
  | nil => exact ⟨_, rfl, fun _ => False.elim, .refl fs, .refl fs', by simp [trail]⟩
  | cons name rest ih =>
    obtain ⟨hname, hrest⟩ := List.forall_mem_cons.mp hnames
    have stuck {e : IoError} (hfs : makeDirs fs here (name :: rest) = (.error e, fs))
        (hfs' : makeDirs fs' here (name :: rest) = (.error e, fs')) :
        Descent here (name :: rest) fs fs' fun _ => False := by
      refine ⟨?_, fun _ => False.elim, ?_, ?_, ?_⟩
      · rw [hfs, hfs']
      · rw [hfs]
        exact .refl fs
      · rw [hfs']
        exact .refl fs'
      · rw [hfs]
        intro hok
        cases hok
    have hplace : fs.settled (here ++ [name]) = fs'.settled (here ++ [name]) :=
      h _ (by rw [trail_cons hname]; exact List.mem_cons_self)
    by_cases hlong : nameLimit < (Text.utf8Encode name).length
    · exact ⟨_, stuck (makeDirs_long hlong rest) (makeDirs_long hlong rest)⟩
    by_cases hdir : fs.settled (here ++ [name]) = .directory
    · have hmake := makeDirs_directory hlong hdir rest
      have hmake' := makeDirs_directory hlong (hplace ▸ hdir) rest
      have hfill := Filled.fill fs (here ++ [name])
      have hfill' := Filled.fill fs' (here ++ [name])
      obtain ⟨D, hD⟩ : ∃ D, Descent (here ++ [name]) rest (fs.fill (here ++ [name]))
          (fs'.fill (here ++ [name])) D := by
        refine ih hrest fun q hq => ?_
        rw [hfill.settled_eq, hfill'.settled_eq]
        exact h q (by rw [trail_cons hname]; exact List.mem_cons_of_mem _ hq)
      refine ⟨fun q => q = here ++ [name] ∨ D q, ?_, ?_, ?_, ?_, ?_⟩
      · rw [hmake, hmake']
        exact hD.result
      · rw [trail_cons hname]
        rintro q (rfl | hq)
        · exact List.mem_cons_self
        · exact List.mem_cons_of_mem _ (hD.on_trail q hq)
      · rw [hmake]
        exact hfill.trans hD.left
      · rw [hmake']
        exact hfill'.trans hD.right
      · rw [hmake, trail_cons hname]
        intro hok
        refine List.forall_mem_cons.mpr ⟨⟨.inl rfl, hdir⟩, fun q hq => ?_⟩
        obtain ⟨hDq, hq⟩ := hD.complete hok q hq
        rw [hfill.settled_eq] at hq
        exact ⟨.inr hDq, hq⟩
    · exact ⟨_, stuck (makeDirs_blocked hlong hdir rest)
        (makeDirs_blocked hlong (hplace ▸ hdir) rest)⟩

/-- Going down from a directory keeps a file system plain. -/
theorem Plain.makeDirs {fs : FileSystem} (h : fs.Plain) {here : Place}
    (hhere : fs.node? here = some .directory) (names : List String) :
    (makeDirs fs here names).2.Plain := by
  induction names generalizing fs here with
  | nil => exact h
  | cons name rest ih =>
    by_cases hlong : nameLimit < (Text.utf8Encode name).length
    · rwa [makeDirs_long hlong]
    by_cases hdir : fs.settled (here ++ [name]) = .directory
    · rw [makeDirs_directory hlong hdir]
      have hnode : (fs.fill (here ++ [name])).node? (here ++ [name]) = some .directory := by
        rw [node?_concat, (Filled.fill fs _).filled _ rfl, hdir]
      refine ih ?_ hnode
      rw [fill]
      split
      · exact h.set hhere (by simp) (.inl rfl)
      · exact h
    · rwa [makeDirs_blocked hlong hdir]

/-! ## Upwards and down again -/

section Names

variable {fs : FileSystem} {here : Place} {name : String} {names : List String}

theorem reach_ordinary_long (h : Ordinary name)
    (hlong : nameLimit < (Text.utf8Encode name).length) (rest : List String) :
    fs.reach here (name :: rest) = .error .nameTooLong :=
  reach_long (not_or.mpr ⟨h.ne_empty, h.ne_dot⟩) h.ne_up hlong rest

theorem reach_ordinary (h : Ordinary name) (hlong : ¬ nameLimit < (Text.utf8Encode name).length)
    (rest : List String) :
    fs.reach here (name :: rest) = match fs.nodes[here ++ [name]]? with
      | none =>
        if rest.all (· == "") then .ok (.vacant here name !rest.isEmpty) else .error .notFound
      | some .directory => fs.reach (here ++ [name]) rest
      | some (.link _) => .error .tooManyLinks
      | some node =>
        if rest.isEmpty then .ok (.found (here ++ [name]) node) else .error .notADirectory :=
  reach_name (not_or.mpr ⟨h.ne_empty, h.ne_dot⟩) h.ne_up hlong rest

/-- What going down comes to, by where the names lead, unless they lead over a
    place where nothing is. -/
theorem makeDirs_of_reach (hfs : fs.Plain) (here : Place) (hnames : ∀ n ∈ names, Ordinary n)
    (hname : Ordinary name) :
    match fs.reach here (names ++ [name]) with
    | .ok (.found _ node) => makeDirs fs here (names ++ [name]) =
        (if node.isDirectory then .ok () else .error .exists, fs)
    | .ok (.vacant parent last _) => makeDirs fs here (names ++ [name]) =
        (.ok (), fs.set (parent ++ [last]) .directory)
    | .error e => e ≠ .notFound → makeDirs fs here (names ++ [name]) = (.error e, fs) := by
  induction names generalizing here with
  | nil =>
    rw [List.nil_append]
    by_cases hlong : nameLimit < (Text.utf8Encode name).length
    · rw [reach_ordinary_long hname hlong]
      exact fun _ => makeDirs_long hlong []
    rw [reach_ordinary hname hlong, makeDirs, if_neg hlong]
    cases hnode : fs.nodes[here ++ [name]]? with
    | none => rfl
    | some node =>
      cases node with
      | link target => exact absurd hnode (hfs.no_link _ target)
      | _ => rfl
  | cons first names ih =>
    obtain ⟨hfirst, hnames⟩ := List.forall_mem_cons.mp hnames
    rw [List.cons_append]
    by_cases hlong : nameLimit < (Text.utf8Encode first).length
    · rw [reach_ordinary_long hfirst hlong]
      exact fun _ => makeDirs_long hlong _
    rw [reach_ordinary hfirst hlong, makeDirs, if_neg hlong]
    cases hnode : fs.nodes[here ++ [first]]? with
    | none => simp [hname.ne_empty]
    | some node =>
      cases node with
      | directory => exact ih _ hnames
      | link target => exact absurd hnode (hfs.no_link _ target)
      | _ => simp

theorem makeDirs_append_ok {fs' : FileSystem} (h : makeDirs fs here names = (.ok (), fs'))
    (more : List String) : makeDirs fs here (names ++ more) = makeDirs fs' (here ++ names) more := by
  induction names generalizing fs here with
  | nil =>
    obtain ⟨⟩ := h
    rw [List.nil_append, List.append_nil]
  | cons first names ih =>
    rw [List.cons_append]
    by_cases hlong : nameLimit < (Text.utf8Encode first).length
    · rw [makeDirs_long hlong] at h
      cases h
    by_cases hdir : fs.settled (here ++ [first]) = .directory
    · rw [makeDirs_directory hlong hdir] at h
      rw [makeDirs_directory hlong hdir, ih h, List.append_assoc, List.singleton_append]
    · rw [makeDirs_blocked hlong hdir] at h
      cases h

theorem makeDirs_append_error {fs' : FileSystem} {e : IoError}
    (h : makeDirs fs here names = (.error e, fs')) (he : e ≠ .exists) (more : List String) :
    makeDirs fs here (names ++ more) = (.error e, fs') := by
  induction names generalizing fs here with
  | nil => cases h
  | cons first names ih =>
    rw [List.cons_append]
    by_cases hlong : nameLimit < (Text.utf8Encode first).length
    · rw [makeDirs_long hlong] at h ⊢
      exact h
    by_cases hdir : fs.settled (here ++ [first]) = .directory
    · rw [makeDirs_directory hlong hdir] at h ⊢
      exact ih h
    · rw [makeDirs_blocked hlong hdir] at h ⊢
      cases names with
      | nil =>
        obtain ⟨⟩ := h
        exact absurd rfl he
      | cons => exact h

/-- Nothing is in the way where nothing is. -/
theorem makeDirs_fresh (h : ∀ more, more ≠ [] → fs.nodes[here ++ more]? = none) :
    (makeDirs fs here names).1 ≠ .error .exists := by
  induction names generalizing fs here with
  | nil => nofun
  | cons first names ih =>
    rw [makeDirs]
    split
    · nofun
    rw [h [first] (by simp)]
    refine ih fun more hmore => ?_
    rw [getElem?_set, if_neg (by simpa using hmore), List.append_assoc]
    exact h _ (by simp)

/-- If names lead over a place where nothing is, then only the names themselves
    can be in the way. -/
theorem makeDirs_ne_exists (hfs : fs.Plain) (hnames : ∀ n ∈ names, Ordinary n)
    (h : fs.reach here (names ++ [name]) = .error .notFound) :
    (makeDirs fs here names).1 ≠ .error .exists := by
  induction names generalizing here with
  | nil => nofun
  | cons first names ih =>
    obtain ⟨hfirst, hnames⟩ := List.forall_mem_cons.mp hnames
    rw [List.cons_append] at h
    by_cases hlong : nameLimit < (Text.utf8Encode first).length
    · rw [makeDirs_long hlong]
      nofun
    rw [reach_ordinary hfirst hlong] at h
    rw [makeDirs, if_neg hlong]
    cases hnode : fs.nodes[here ++ [first]]? with
    | none =>
      refine makeDirs_fresh fun more hmore => ?_
      have hnothing : fs.node? (here ++ [first] ++ more) = none :=
        hfs.nothing_below (by rw [node?_concat, hnode]) more
      rw [getElem?_set, if_neg (by simpa using hmore)]
      rwa [node?, if_neg (by simp)] at hnothing
    | some node =>
      rw [hnode] at h
      cases node with
      | directory => exact ih hnames h
      | link target => exact absurd hnode (hfs.no_link _ target)
      | _ => simp at h

/-- Where all went well, the names lead to a directory. -/
theorem reach_of_makeDirs {fs' : FileSystem} (hnames : ∀ n ∈ names, Ordinary n)
    (h : makeDirs fs here names = (.ok (), fs')) :
    fs'.reach here names = .ok (.found (here ++ names) .directory) := by
  induction names generalizing fs here with
  | nil => rw [reach_nil, List.append_nil]
  | cons first names ih =>
    obtain ⟨hfirst, hnames⟩ := List.forall_mem_cons.mp hnames
    by_cases hlong : nameLimit < (Text.utf8Encode first).length
    · rw [makeDirs_long hlong] at h
      cases h
    by_cases hdir : fs.settled (here ++ [first]) = .directory
    · rw [makeDirs_directory hlong hdir] at h
      obtain ⟨D, hD⟩ : ∃ D, Descent (here ++ [first]) names (fs.fill (here ++ [first]))
          (fs.fill (here ++ [first])) D :=
        exists_descent hnames fun _ _ => rfl
      have hfilled : (fs.fill (here ++ [first])).nodes[here ++ [first]]? = some .directory := by
        rw [(Filled.fill fs _).filled _ rfl, hdir]
      have hnode := hD.left.getElem?_of_some hfilled
      rw [h] at hnode
      rw [reach_ordinary hfirst hlong, hnode, List.append_cons here first names]
      exact ih hnames h
    · rw [makeDirs_blocked hlong hdir] at h
      cases h

end Names

/-! ## Texts -/

theorem withoutFinalSlashes_eq {path : String} (h : Path.isOpen path = false) :
    withoutFinalSlashes path = path := by
  rw [Path.isOpen, beq_eq_false_iff_ne] at h
  have hkept : path.toList.reverse.dropWhile (· == '/') = path.toList.reverse := by
    cases hrev : path.toList.reverse with
    | nil => rfl
    | cons c cs =>
      have hc : path.toList.getLast? = some c := by
        rw [List.getLast?_eq_head?_reverse, hrev, List.head?_cons]
      have hne : c ≠ '/' := fun heq => h (heq ▸ hc)
      simp [hne]
  rw [withoutFinalSlashes, hkept, List.reverse_reverse, String.ofList_toList, ite_self]

/-- A path that can be followed goes on from one that can be followed. -/
theorem fault_join {a b : String} (ha : a ≠ "") (hb : Path.isAbsolute b = false)
    (h : fault (Path.join a b) = none) : fault a = none := by
  obtain ⟨more, hmore⟩ : ∃ more, Path.join a b = a ++ more := by
    rw [Path.join_relative ha hb]
    split
    · exact ⟨b, rfl⟩
    · exact ⟨"/" ++ b, by rw [String.append_assoc]⟩
  rw [hmore] at h
  unfold fault at h ⊢
  split at h
  · cases h
  next hnul =>
  split at h
  · cases h
  split at h
  · cases h
  next hlong =>
  have hnul' : a.toList.contains '\x00' = false := by
    simp at hnul ⊢
    exact hnul.1
  have hlong' : ¬ pathLimit ≤ (Text.utf8Encode a).length := by
    intro hle
    apply hlong
    simp [Text.utf8Encode] at hle ⊢
    omega
  rw [if_neg (by simpa using hnul'), if_neg (by simpa using ha), if_neg hlong']

/-! ## Under a directory -/

section Under

variable {fs : FileSystem} {root : String} {base : Place} {name : String} {up : List String}

/-- Names lead from the path of a directory to where they lead from the directory. -/
theorem reach_stem
    (hbase : fs.reach (fs.origin root) (Path.segments root) = .ok (.found base .directory))
    (names : List String) :
    fs.reach (fs.origin root) (Path.stem root ++ names) = fs.reach base names := by
  refine reach_append ?_ names
  cases hopen : Path.isOpen root with
  | true =>
    rw [Path.segments_of_isOpen hopen] at hbase
    exact reach_of_reach_append_empty hbase
  | false => rwa [Path.segments_of_not_isOpen hopen] at hbase

theorem origin_under (hroot : root ≠ "") (hup : ∀ n ∈ up, Ordinary n) :
    fs.origin (under root up) = fs.origin root := by
  rw [origin, Path.isAbsolute_under hroot hup, origin]

theorem reach_under (hroot : root ≠ "") (hnames : ∀ n ∈ name :: up, Ordinary n)
    (hbase : fs.reach (fs.origin root) (Path.segments root) = .ok (.found base .directory)) :
    fs.reach (fs.origin (under root (name :: up))) (Path.segments (under root (name :: up))) =
      fs.reach base (up.reverse ++ [name]) := by
  rw [Path.segments_under hroot hnames, origin_under hroot hnames, reach_stem hbase,
    List.reverse_cons]

/-- Create a directory, or find that it is there. -/
def attempt (fs : FileSystem) (path : String) : Except IoError Unit × FileSystem :=
  match fs.mkdir path with
  | .ok fs => (.ok (), fs)
  | .error e => (if fs.isDirectory path then .ok () else .error e, fs)

theorem mkdirWith_found {path : String} (hpath : path ≠ "") (h : fs.mkdir path ≠ .error .notFound)
    (ancestors : List String) : mkdirWith (path :: ancestors) fs = fs.attempt path := by
  rw [mkdirWith, if_neg (by simpa using hpath), attempt]
  split
  · next heq => rw [heq]
  · next heq => exact absurd heq h
  · next heq => rw [heq]

theorem mkdirWith_missing {path : String} (hpath : path ≠ "") (h : fs.mkdir path = .error .notFound)
    (ancestors : List String) :
    mkdirWith (path :: ancestors) fs = match mkdirWith ancestors fs with
      | (.error e, fs) => (.error e, fs)
      | (.ok (), fs) => fs.attempt path := by
  rw [mkdirWith, if_neg (by simpa using hpath), h]
  rfl

/-- An attempt where no name before the last one is missing. -/
theorem attempt_eq (hfs : fs.Plain) {path : String} {here : Place} {names : List String}
    (hnames : ∀ n ∈ names, Ordinary n) (hname : Ordinary name) (hopen : Path.isOpen path = false)
    (hfault : fault path = none)
    (hreach : fs.reach (fs.origin path) (Path.segments path) = fs.reach here (names ++ [name]))
    (hfound : fs.reach here (names ++ [name]) ≠ .error .notFound) :
    fs.mkdir path ≠ .error .notFound ∧ fs.attempt path = makeDirs fs here (names ++ [name]) := by
  have hmake := makeDirs_of_reach hfs here hnames hname
  rw [attempt, mkdir, withoutFinalSlashes_eq hopen, isDirectory, stat, hfs.walk_eq, hfs.walk_eq,
    hfault]
  dsimp only
  rw [hreach]
  cases hcase : fs.reach here (names ++ [name]) with
  | ok target =>
    rw [hcase] at hmake
    cases target with
    | found place node => exact ⟨by simp, hmake.symm⟩
    | vacant parent last slash => exact ⟨by simp, hmake.symm⟩
  | error e =>
    rw [hcase] at hmake hfound
    have he : e ≠ .notFound := fun heq => hfound (congrArg _ heq)
    refine ⟨?_, (hmake he).symm⟩
    rintro ⟨⟩
    exact he rfl

theorem reach_singleton_ne (hname : Ordinary name) (here : Place) :
    fs.reach here [name] ≠ .error .notFound := by
  by_cases hlong : nameLimit < (Text.utf8Encode name).length
  · rw [reach_ordinary_long hname hlong]
    nofun
  rw [reach_ordinary hname hlong]
  cases fs.nodes[here ++ [name]]? with
  | none => nofun
  | some node => cases node <;> nofun

theorem mkdir_eq_notFound (hfs : fs.Plain) {path : String} (hopen : Path.isOpen path = false)
    (hfault : fault path = none)
    (h : fs.reach (fs.origin path) (Path.segments path) = .error .notFound) :
    fs.mkdir path = .error .notFound := by
  rw [mkdir, withoutFinalSlashes_eq hopen, hfs.walk_eq, hfault]
  dsimp only
  rw [h]

/-- Trying upwards and creating downwards is going down from `root`. -/
theorem mkdirWith_chain (hfs : fs.Plain) (hroot : root ≠ "") (hdir : fs.node? base = some .directory)
    (hbase : fs.reach (fs.origin root) (Path.segments root) = .ok (.found base .directory))
    (hnames : ∀ n ∈ name :: up, Ordinary n) (hfault : fault (under root (name :: up)) = none)
    (more : List String) :
    mkdirWith (chain root (name :: up) ++ more) fs = makeDirs fs base (up.reverse ++ [name]) := by
  induction up generalizing name with
  | nil =>
    have hname := hnames name List.mem_cons_self
    have hnil : ∀ n ∈ [], Ordinary n := nofun
    obtain ⟨hmkdir, hattempt⟩ := attempt_eq hfs hnil hname (Path.isOpen_under root hname [])
      hfault (reach_under hroot hnames hbase) (reach_singleton_ne hname base)
    exact (mkdirWith_found (Path.under_ne_empty hroot [name]) hmkdir more).trans hattempt
  | cons last up ih =>
    obtain ⟨hname, hup⟩ := List.forall_mem_cons.mp hnames
    have hup' : ∀ n ∈ (last :: up).reverse, Ordinary n := fun n hn => hup n (List.mem_reverse.mp hn)
    have hpath := Path.under_ne_empty hroot (name :: last :: up)
    have hopen := Path.isOpen_under root hname (last :: up)
    have hreach := reach_under hroot hnames hbase
    by_cases hfound : fs.reach base ((last :: up).reverse ++ [name]) = .error .notFound
    · have hfault' := fault_join (Path.under_ne_empty hroot (last :: up)) hname.not_isAbsolute hfault
      have hmissing := mkdir_eq_notFound hfs hopen hfault (hreach.trans hfound)
      have hchain := ih hup hfault'
      rw [← List.reverse_cons] at hchain
      rw [chain, List.cons_append, mkdirWith_missing hpath hmissing, hchain]
      cases hmake : makeDirs fs base (last :: up).reverse with
      | mk r fs' =>
        cases r with
        | error e =>
          have he : e ≠ .exists := by
            rintro rfl
            exact makeDirs_ne_exists hfs hup' hfound (by rw [hmake])
          rw [makeDirs_append_error hmake he]
        | ok =>
          obtain ⟨D, hD⟩ : ∃ D, Descent base (last :: up).reverse fs fs D :=
            exists_descent hup' fun _ _ => rfl
          have hfs' := hfs.makeDirs hdir (last :: up).reverse
          have hfilled := hD.left
          rw [hmake] at hfs' hfilled
          have hreach' := reach_under hroot hnames (hfilled.reach_eq hbase)
          rw [reach_append (reach_of_makeDirs hup' hmake)] at hreach'
          have hnil : ∀ n ∈ [], Ordinary n := nofun
          obtain ⟨-, hattempt⟩ := attempt_eq hfs' hnil hname hopen hfault hreach'
            (reach_singleton_ne hname _)
          rw [makeDirs_append_ok hmake]
          exact hattempt
    · obtain ⟨hmkdir, hattempt⟩ := attempt_eq hfs hup' hname hopen hfault hreach hfound
      rw [chain, List.cons_append, mkdirWith_found hpath hmkdir, hattempt]

theorem fault_ne_notFound {path : String} (h : path ≠ "") : fault path ≠ some .notFound := by
  rw [fault]
  split
  · decide
  rw [if_neg (by simpa using h)]
  split <;> decide

/-- To make sure of a directory is to go down from `root`, unless something is
    wrong with its path. -/
theorem ensureDir_under (hfs : fs.Plain) (hroot : fs.stat root = .ok (base, .directory))
    (hdir : fs.node? base = some .directory) (hnames : ∀ n ∈ name :: up, Ordinary n) :
    let path := under root (name :: up)
    ((ensureDir path fs).1.map fun _ => (), (ensureDir path fs).2) = match fault path with
      | some e => (.error e, fs)
      | none => makeDirs fs base (up.reverse ++ [name]) := by
  intro path
  obtain ⟨hrootFault, hbase⟩ := hfs.reach_of_stat hroot
  have hne : root ≠ "" := by
    rintro rfl
    cases hrootFault
  obtain ⟨hname, hup⟩ := List.forall_mem_cons.mp hnames
  have hup' : ∀ n ∈ up.reverse, Ordinary n := fun n hn => hup n (List.mem_reverse.mp hn)
  have hpath : path ≠ "" := Path.under_ne_empty hne (name :: up)
  have hreach : fs.reach (fs.origin path) (Path.segments path) = _ := reach_under hne hnames hbase
  have hmake := makeDirs_of_reach hfs base hup' hname
  cases hfault : fault path with
  | some e =>
    have he : e ≠ .notFound := fun heq => fault_ne_notFound hpath (heq ▸ hfault)
    have hmkdir : fs.mkdir path = .error e := by
      rw [mkdir, withoutFinalSlashes_eq (Path.isOpen_under _ hname up), hfs.walk_eq, hfault]
    have hisDirectory : fs.isDirectory path = false := by
      rw [isDirectory, stat, hfs.walk_eq, hfault]
    have hfound : fs.mkdir path ≠ .error .notFound := by
      rw [hmkdir]
      exact fun heq => he (Except.error.inj heq)
    rw [ensureDir, hisDirectory, if_neg Bool.false_ne_true, mkdirWith_found hpath hfound, attempt,
      hmkdir, hisDirectory]
    rfl
  | none =>
    by_cases hisDirectory : fs.isDirectory path = true
    · rw [ensureDir, if_pos hisDirectory]
      rw [isDirectory, stat, hfs.walk_eq, hfault] at hisDirectory
      dsimp only at hisDirectory
      rw [hreach] at hisDirectory
      cases hcase : fs.reach base (up.reverse ++ [name]) with
      | error e => simp [hcase] at hisDirectory
      | ok target =>
        rw [hcase] at hisDirectory hmake
        cases target with
        | vacant => cases hisDirectory
        | found place node =>
          dsimp only at hisDirectory hmake
          rw [hmake, if_pos hisDirectory]
          rfl
    · obtain ⟨more, hmore⟩ := Path.ancestors_under hne hnames
      have hchain := mkdirWith_chain hfs hne hdir hbase hnames hfault more
      rw [chain, List.cons_append, ← hmore] at hchain
      rw [ensureDir, if_neg hisDirectory, hchain]
      obtain ⟨_ | _, fs'⟩ := makeDirs fs base (up.reverse ++ [name]) <;> rfl

end Under

end BuildServer.FileSystem
