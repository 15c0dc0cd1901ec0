-- SUMMARY: A repository depends on its own section, and on what else has the full keys of its fields.
import BuildServer.Proofs.Ini.Sections
import BuildServer.Proofs.Settings.Loading
import BuildServer.Proofs.Settings.Value
import BuildServer.Proofs.Settings.Writing
import BuildServer.Registry
import Mathlib.Data.List.Find

/-!
# Repositories and their sections

A repository is read from its section by full keys. If no assignment outside of
the section has one of these, the repository depends on nothing but what is
assigned in the section. Otherwise all assignments with such a key count, and the
last of them decides.
-/

namespace BuildServer

/-! ## The last assignment -/

namespace Settings

open Ini (Document Placed)

theorem get?_ofDocument (d : Document) (key : String) :
    (ofDocument d).get? key =
      (d.placed.reverse.find? fun a => Ini.fullKey a.inside a.key == key).map Placed.value := by
  rw [get?, ofDocument, getElem?_mapOf, Document.flatten, Document.flattenFrom_eq,
    ← List.map_reverse, List.find?_map, Option.map_map]
  rfl

theorem get?_eq_some_iff {d : Document} {s field value : String} (hfield : '.' ∉ field.toList) :
    (ofDocument d).get? (s ++ "." ++ field) = some value ↔ d.Settles s field value := by
  rw [get?_ofDocument, Option.map_eq_some_iff]
  simp only [List.find?_eq_some_iff_append, beq_iff_eq, Ini.fullKey_eq_iff _ s hfield]
  constructor
  · rintro ⟨a, ⟨hsupplies, after, before, hplaced, hafter⟩, hvalue⟩
    refine ⟨before.reverse, a, after.reverse, ?_, hsupplies, ?_, hvalue⟩
    · rw [← List.reverse_reverse d.placed, hplaced]
      simp
    · intro b hb
      have hb' := hafter b (List.mem_reverse.mp hb)
      rw [Bool.not_eq_true', beq_eq_false_iff_ne, ne_eq, Ini.fullKey_eq_iff b s hfield] at hb'
      exact hb'
  · rintro ⟨before, a, after, hplaced, hsupplies, hafter, hvalue⟩
    refine ⟨a, ⟨hsupplies, after.reverse, before.reverse, ?_, ?_⟩, hvalue⟩
    · rw [hplaced]
      simp
    · intro b hb
      rw [Bool.not_eq_true', beq_eq_false_iff_ne, ne_eq, Ini.fullKey_eq_iff b s hfield]
      exact hafter b (List.mem_reverse.mp hb)

/-- If nothing reaches the field from outside, its value is the last one in the section. -/
theorem get?_within {d : Document} {s field : String} (hfield : '.' ∉ field.toList)
    (h : ∀ a ∈ d.placed, ¬ a.Reaches s field) :
    (ofDocument d).get? (s ++ "." ++ field) =
      ((d.within s).reverse.find? (·.key == field)).map Placed.value := by
  rw [get?_ofDocument, Document.within, ← List.filter_reverse, List.find?_filter]
  refine congrArg _ (List.find?_congr fun a ha => ?_)
  rw [Bool.eq_iff_iff, beq_iff_eq, Ini.fullKey_eq_iff a s hfield]
  simp [Placed.Supplies, h a (List.mem_reverse.mp ha)]

end Settings

/-! ## Registries -/

namespace Registry

open Ini (Document Placed)

variable {s : Settings} {r : Registry} {name : String}

theorem readSection_eq_ok {repository : Repository} :
    readSection s name = .ok repository ↔ ∃ url config, s.get? (name ++ "." ++ "url") = some url ∧
      s.get? (name ++ "." ++ "config") = some config ∧ repository = ⟨name, url, config⟩ := by
  have hurl : name ++ ".url" = name ++ "." ++ "url" := by rw [String.append_assoc]; rfl
  have hconfig : name ++ ".config" = name ++ "." ++ "config" := by rw [String.append_assoc]; rfl
  simp only [readSection, hurl, hconfig, bind_eq_ok, Settings.required_eq_ok, pure, Except.pure,
    Except.ok.injEq]
  constructor
  · rintro ⟨url, ⟨_, hurl, ⟨⟩⟩, config, ⟨_, hconfig, ⟨⟩⟩, rfl⟩
    exact ⟨url, config, hurl, hconfig, rfl⟩
  · rintro ⟨url, config, hurl, hconfig, rfl⟩
    exact ⟨url, ⟨url, hurl, rfl⟩, config, ⟨config, hconfig, rfl⟩, rfl⟩

/-- Of the repositories with a name the last one is filed. -/
theorem get?_ofRepositories (rs : List Repository) (name : String) :
    (ofRepositories rs).get? name = rs.reverse.find? (·.name == name) := by
  have hpairs : rs.foldl file ∅ =
      (rs.map fun r => (r.name, r)).foldl (fun m e => m.insert e.1 e.2) ∅ := by
    rw [List.foldl_map]
    rfl
  change (rs.foldl file ∅)[name]? = _
  rw [hpairs, Settings.getElem?_foldl_insert, ← List.map_reverse,
    List.find?_map, Option.map_map]
  exact Option.map_id'

theorem ofSettings_eq_ok (h : ofSettings s = .ok r) :
    ∃ rs, s.sections.toList.mapM (readSection s) = .ok rs ∧ ofRepositories rs = r :=
  map_eq_ok.mp h

/-- A registry has what its sections give, and nothing else. -/
theorem get?_eq_some_iff {repository : Repository} (h : ofSettings s = .ok r) :
    r.get? name = some repository ↔
      name ∈ s.sections ∧ readSection s name = .ok repository := by
  obtain ⟨rs, hrs, rfl⟩ := ofSettings_eq_ok h
  obtain ⟨hsections, hread⟩ := mem_of_mapM_ok hrs
  have hmem {r : Repository} (hr : r ∈ rs) : r.name ∈ s.sections ∧ readSection s r.name = .ok r := by
    obtain ⟨listed, hlisted, hok⟩ := hread r hr
    obtain ⟨url, config, -, -, rfl⟩ := readSection_eq_ok.mp hok
    exact ⟨Std.ExtTreeSet.mem_toList.mp hlisted, hok⟩
  have hfound {r : Repository} (hfind : rs.reverse.find? (·.name == name) = some r) :
      name ∈ s.sections ∧ readSection s name = .ok r := by
    have hname := List.find?_some hfind
    obtain rfl : r.name = name := beq_iff_eq.mp hname
    exact hmem (List.mem_reverse.mp (List.mem_of_find?_eq_some hfind))
  rw [get?_ofRepositories]
  constructor
  · exact hfound
  · rintro ⟨hname, hok⟩
    obtain ⟨r, hr, hok'⟩ := hsections name (Std.ExtTreeSet.mem_toList.mpr hname)
    obtain ⟨url, config, -, -, rfl⟩ := readSection_eq_ok.mp hok'
    cases hfind : rs.reverse.find? (·.name == name) with
    | none =>
      have hnone := List.find?_eq_none.mp hfind _ (List.mem_reverse.mpr hr)
      simp at hnone
    | some r =>
      have hread := (hfound hfind).2
      rw [hok] at hread
      rw [Except.ok.inj hread]

theorem get?_isSome_of_mem (h : ofSettings s = .ok r) (hname : name ∈ s.sections) :
    ∃ repository, r.get? name = some repository := by
  obtain ⟨rs, hrs, -⟩ := ofSettings_eq_ok h
  obtain ⟨repository, -, hok⟩ :=
    (mem_of_mapM_ok hrs).1 name (Std.ExtTreeSet.mem_toList.mpr hname)
  exact ⟨repository, (get?_eq_some_iff h).mpr ⟨hname, hok⟩⟩

/-! ## Files -/

/-- The file at this path holds the text of this document. -/
def Holds (fs : FileSystem) (path : String) (d : Document) : Prop :=
  ∃ place content mode text, fs.stat path = .ok (place, .file content mode) ∧
    Settings.fileText content = .ok text ∧ Document.ofText text = .ok d

theorem load_of_loads {fs : FileSystem} {path : String} {settings : Settings}
    (h : Settings.Loads fs fileRole path (.ok settings)) :
    load fs path = (ofSettings settings).map fun r => (settings, r) := by
  rw [load, h.load_eq]
  change (do let r ← ofSettings settings; return (settings, r)) = _
  cases ofSettings settings <;> rfl

theorem load_of_holds {fs : FileSystem} {path : String} {d : Document} (h : Holds fs path d) :
    load fs path = (ofSettings (.ofDocument d)).map fun r => (.ofDocument d, r) := by
  obtain ⟨place, content, mode, text, hstat, htext, hdocument⟩ := h
  exact load_of_loads (.document hstat htext hdocument)

section Load

variable {fs : FileSystem} {path : String} {d : Document} {settings : Settings}

theorem ofSettings_of_load (hd : Holds fs path d) (h : load fs path = .ok (settings, r)) :
    ofSettings (.ofDocument d) = .ok r := by
  rw [load_of_holds hd] at h
  obtain ⟨r', hr', hpair⟩ := map_eq_ok.mp h
  rw [hr', (Prod.mk.inj hpair).2]

/-- The repository of a section that nothing reaches from outside. -/
def ownEntry (name : String) (own : List Placed) : Option Repository := do
  let url ← own.reverse.find? (·.key == "url")
  let config ← own.reverse.find? (·.key == "config")
  return ⟨name, url.value, config.value⟩

/-- Nothing reaches the section from outside. -/
def Secluded (d : Document) (name : String) : Prop :=
  ∀ a ∈ d.placed, ¬ a.Reaches name "url" ∧ ¬ a.Reaches name "config"

instance (d : Document) (name : String) : Decidable (Secluded d name) :=
  decidable_of_iff
    (∀ a ∈ d.placed,
      ¬ (a.inside ≠ some name ∧ Ini.fullKey a.inside a.key = name ++ "." ++ "url") ∧
      ¬ (a.inside ≠ some name ∧ Ini.fullKey a.inside a.key = name ++ "." ++ "config"))
    (by simp only [Secluded, Placed.reaches_iff (by decide : '.' ∉ "url".toList),
      Placed.reaches_iff (by decide : '.' ∉ "config".toList)])

theorem get?_of_secluded (h : ofSettings (.ofDocument d) = .ok r) (hsecluded : Secluded d name) :
    r.get? name = ownEntry name (d.within name) := by
  have hurl := Settings.get?_within (by decide) fun a ha => (hsecluded a ha).1
  have hconfig := Settings.get?_within (by decide) fun a ha => (hsecluded a ha).2
  have hsections : name ∈ (Settings.ofDocument d).sections ↔ name ∈ d.headers := by
    rw [Settings.ofDocument, Std.ExtTreeSet.mem_ofList, List.contains_iff_mem]
  by_cases hname : name ∈ d.headers
  · obtain ⟨repository, hrepository⟩ := get?_isSome_of_mem h (hsections.mpr hname)
    obtain ⟨-, hread⟩ := (get?_eq_some_iff h).mp hrepository
    obtain ⟨url, config, hu, hc, rfl⟩ := readSection_eq_ok.mp hread
    rw [hurl] at hu
    rw [hconfig] at hc
    obtain ⟨a, ha, rfl⟩ := Option.map_eq_some_iff.mp hu
    obtain ⟨b, hb, rfl⟩ := Option.map_eq_some_iff.mp hc
    rw [hrepository, ownEntry, ha, hb]
    rfl
  · have hwithin : d.within name = [] := List.eq_nil_iff_forall_not_mem.mpr fun a ha =>
      hname (Document.mem_headers_of_mem_within ha)
    have hnone : r.get? name = none := by
      rw [Option.eq_none_iff_forall_ne_some]
      intro repository hrepository
      exact hname (hsections.mp ((get?_eq_some_iff h).mp hrepository).1)
    rw [hnone, hwithin]
    rfl

/-- The last assignments that count decide, wherever they stand. -/
theorem settles_of_get? {repository : Repository} (h : ofSettings (.ofDocument d) = .ok r)
    (hget : r.get? name = some repository) :
    repository.name = name ∧ d.Settles name "url" repository.url ∧
      d.Settles name "config" repository.config := by
  obtain ⟨-, hread⟩ := (get?_eq_some_iff h).mp hget
  obtain ⟨url, config, hurl, hconfig, rfl⟩ := readSection_eq_ok.mp hread
  exact ⟨rfl, (Settings.get?_eq_some_iff (by decide)).mp hurl,
    (Settings.get?_eq_some_iff (by decide)).mp hconfig⟩

end Load

/-- Two files that assign the same in the sections of a name give it the same
    repository, provided that no assignment outside of these sections reaches them.
    Where one does, it decides if it is the last one that counts. -/
theorem get?_eq_of_within_eq {fs fs' : FileSystem} {path path' : String} {d d' : Document}
    {settings settings' : Settings} {r r' : Registry} (hd : Holds fs path d)
    (h : load fs path = .ok (settings, r)) (hd' : Holds fs' path' d')
    (h' : load fs' path' = .ok (settings', r')) {name : String}
    (hwithin : d.within name = d'.within name) :
    (Secluded d name → Secluded d' name → r.get? name = r'.get? name) ∧
    ∀ repository, r.get? name = some repository →
      repository.name = name ∧ d.Settles name "url" repository.url ∧
        d.Settles name "config" repository.config := by
  have hr := ofSettings_of_load hd h
  have hr' := ofSettings_of_load hd' h'
  refine ⟨fun hsecluded hsecluded' => ?_, fun repository => settles_of_get? hr⟩
  rw [get?_of_secluded hr hsecluded, get?_of_secluded hr' hsecluded', hwithin]

/-! ## Files of one text -/

def fileOfText (text : String) : FileSystem :=
  FileSystem.empty.set ["r"] (.file (Text.utf8Encode text) 0o644)

theorem holds_fileOfText {text : String} (htext : Settings.fileText (Text.utf8Encode text) = .ok text)
    (hd : Document.ofText text = .ok d) : Holds (fileOfText text) "/r" d :=
  ⟨["r"], Text.utf8Encode text, 0o644, text, rfl, htext, hd⟩

/-- The repository of a name, if the file of a text loads. -/
def lookUp (text name : String) : Option (Option Repository) :=
  (load (fileOfText text) "/r").toOption.map fun loaded => loaded.2.get? name

theorem load_of_lookUp {text name : String} {found : Option Repository}
    (h : lookUp text name = some found) :
    ∃ settings r, load (fileOfText text) "/r" = .ok (settings, r) ∧ r.get? name = found := by
  unfold lookUp at h
  cases hload : load (fileOfText text) "/r" with
  | error e =>
    rw [hload] at h
    cases h
  | ok loaded =>
    rw [hload] at h
    exact ⟨loaded.1, loaded.2, rfl, Option.some.inj h⟩

/-- One repository alone. -/
def aloneText : String := "[s]\nurl = u\nconfig = c\n"

/-- The same repository, next to keys that do not reach it. -/
def besideText : String :=
  "s.t = x\n[t]\nurl = v\nconfig = e\ns.url = w\n[s]\nurl = u\nconfig = c\n"

theorem get?_eq_of_within_eq_beside :
    ∃ settings settings' r r', load (fileOfText aloneText) "/r" = .ok (settings, r) ∧
      load (fileOfText besideText) "/r" = .ok (settings', r') ∧
      r.get? "s" = r'.get? "s" ∧ r.get? "s" = some ⟨"s", "u", "c"⟩ := by
  obtain ⟨settings, r, h, hget⟩ :=
    load_of_lookUp (by decide +kernel : lookUp aloneText "s" = some (some ⟨"s", "u", "c"⟩))
  obtain ⟨settings', r', h', -⟩ :=
    load_of_lookUp (by decide +kernel : lookUp besideText "s" = some (some ⟨"s", "u", "c"⟩))
  have hd : Holds (fileOfText aloneText) "/r"
      [.header "s", .assign "url" "u", .assign "config" "c"] := holds_fileOfText rfl rfl
  have hd' : Holds (fileOfText besideText) "/r"
      [.assign "s.t" "x", .header "t", .assign "url" "v", .assign "config" "e",
        .assign "s.url" "w", .header "s", .assign "url" "u", .assign "config" "c"] :=
    holds_fileOfText rfl rfl
  have hwithin : Document.within [.header "s", .assign "url" "u", .assign "config" "c"] "s" =
      Document.within [.assign "s.t" "x", .header "t", .assign "url" "v", .assign "config" "e",
        .assign "s.url" "w", .header "s", .assign "url" "u", .assign "config" "c"] "s" := by decide
  obtain ⟨heq, -⟩ := get?_eq_of_within_eq hd h hd' h' hwithin
  exact ⟨settings, settings', r, r', h, h', heq (by decide) (by decide), hget⟩

/-- A repository without an address of its own, and a key for it in front of all sections. -/
def lentText (url : String) : String := "s.url = " ++ url ++ "\n[s]\nconfig = c\n"

/-- What is assigned in no section at all makes a difference to a repository. -/
theorem exists_get?_ne_of_within_eq :
    ∃ d d' settings settings' r r',
      Holds (fileOfText (lentText "u")) "/r" d ∧
      load (fileOfText (lentText "u")) "/r" = .ok (settings, r) ∧
      Holds (fileOfText (lentText "v")) "/r" d' ∧
      load (fileOfText (lentText "v")) "/r" = .ok (settings', r') ∧
      d.within "s" = d'.within "s" ∧ r.get? "s" ≠ r'.get? "s" := by
  obtain ⟨settings, r, h, hget⟩ :=
    load_of_lookUp (by decide +kernel : lookUp (lentText "u") "s" = some (some ⟨"s", "u", "c"⟩))
  obtain ⟨settings', r', h', hget'⟩ :=
    load_of_lookUp (by decide +kernel : lookUp (lentText "v") "s" = some (some ⟨"s", "v", "c"⟩))
  refine ⟨[.assign "s.url" "u", .header "s", .assign "config" "c"],
    [.assign "s.url" "v", .header "s", .assign "config" "c"], settings, settings', r, r',
    holds_fileOfText rfl rfl, h, holds_fileOfText rfl rfl, h', by decide, ?_⟩
  rw [hget, hget']
  decide

end Registry

end BuildServer
