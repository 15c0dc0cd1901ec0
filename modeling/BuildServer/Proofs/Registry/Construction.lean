-- SUMMARY: A registry is built exactly if every section has its keys. Its repositories are then the sections, and otherwise the first missing key is reported.
import BuildServer.Proofs.Registry.Sections
import Mathlib.Data.List.Sort
import Mathlib.Data.String.Basic

/-!
# Construction of registries

Sections are read in the order of their names, and each is asked for its address
before its build configuration. The first key that is missing ends this and is what
is reported, whatever else there is or is missing. If none is missing, the
repositories are the sections, each with its own values.
-/

namespace BuildServer.Registry

variable {s : Settings} {r : Registry} {name key : String}

/-! ## One section -/

/-- Both keys of a repository are there. -/
structure Complete (s : Settings) (name : String) : Prop where
  url : (s.get? (name ++ ".url")).isSome
  config : (s.get? (name ++ ".config")).isSome

/-- The first key that a section lacks. -/
inductive Lacks (s : Settings) (name : String) : String → Prop where
  | url (hurl : s.get? (name ++ ".url") = none) : Lacks s name (name ++ ".url")
  | config (hurl : (s.get? (name ++ ".url")).isSome) (hconfig : s.get? (name ++ ".config") = none) :
      Lacks s name (name ++ ".config")

theorem Lacks.not_complete (h : Lacks s name key) : ¬ Complete s name := by
  intro hcomplete
  cases h with
  | url hurl => simpa [hurl] using hcomplete.url
  | config _ hconfig => simpa [hconfig] using hcomplete.config

theorem Lacks.unique {key' : String} (h : Lacks s name key) (h' : Lacks s name key') :
    key = key' := by
  cases h with
  | url hurl =>
    cases h' with
    | url => rfl
    | config hurl' => simp [hurl] at hurl'
  | config hurl =>
    cases h' with
    | url hurl' => simp [hurl'] at hurl
    | config => rfl

theorem readSection_of_lacks (h : Lacks s name key) :
    readSection s name = .error (.missingKey key) := by
  cases h with
  | url hurl => simp [readSection, Settings.required, hurl, bind, Except.bind]
  | config hurl hconfig =>
    obtain ⟨url, hurl⟩ := Option.isSome_iff_exists.mp hurl
    simp [readSection, Settings.required, hurl, hconfig, bind, Except.bind, ValueType.readAt,
      ValueType.text, Except.mapError]

theorem complete_or_lacks (s : Settings) (name : String) :
    Complete s name ∨ ∃ key, Lacks s name key := by
  cases hurl : s.get? (name ++ ".url") with
  | none => exact .inr ⟨_, .url hurl⟩
  | some url =>
    cases hconfig : s.get? (name ++ ".config") with
    | none => exact .inr ⟨_, .config (by simp [hurl]) hconfig⟩
    | some config => exact .inl ⟨by simp [hurl], by simp [hconfig]⟩

theorem Complete.exists_repository (h : Complete s name) :
    ∃ repository, readSection s name = .ok repository := by
  obtain ⟨url, hurl⟩ := Option.isSome_iff_exists.mp h.url
  obtain ⟨config, hconfig⟩ := Option.isSome_iff_exists.mp h.config
  refine ⟨⟨name, url, config⟩, readSection_eq_ok.mpr ⟨url, config, ?_, ?_, rfl⟩⟩
  · rw [String.append_assoc]
    exact hurl
  · rw [String.append_assoc]
    exact hconfig

theorem complete_of_readSection {repository : Repository}
    (h : readSection s name = .ok repository) : Complete s name := by
  refine (complete_or_lacks s name).resolve_right ?_
  rintro ⟨key, hlacks⟩
  rw [readSection_of_lacks hlacks] at h
  cases h

/-! ## All sections -/

/-- The first section that lacks a key, in the order of the names. -/
structure FirstFault (s : Settings) (name key : String) : Prop where
  listed : name ∈ s.sections
  earlier : ∀ other ∈ s.sections, other < name → Complete s other
  lacks : Lacks s name key

theorem FirstFault.unique {name' key' : String} (h : FirstFault s name key)
    (h' : FirstFault s name' key') : key = key' := by
  rcases lt_trichotomy name name' with hlt | rfl | hlt
  · exact absurd (h'.earlier name h.listed hlt) h.lacks.not_complete
  · exact h.lacks.unique h'.lacks
  · exact absurd (h.earlier name' h'.listed hlt) h'.lacks.not_complete

theorem sortedLT_sections (s : Settings) : s.sections.toList.SortedLT :=
  (Std.ExtTreeSet.ordered_toList.imp fun h => compare_lt_iff_lt.mp h).sortedLT

/-- A failure is due to the first section that lacks a key. -/
theorem firstFault_of_ofSettings {e : SettingsError} (h : ofSettings s = .error e) :
    ∃ name key, FirstFault s name key ∧ e = .missingKey key := by
  have hread : s.sections.toList.mapM (readSection s) = .error e := map_eq_error.mp h
  obtain ⟨before, name, after, hsections, hbefore, hname⟩ := exists_of_mapM_error hread
  obtain hcomplete | ⟨key, hlacks⟩ := complete_or_lacks s name
  · obtain ⟨repository, hok⟩ := hcomplete.exists_repository
    rw [hok] at hname
    cases hname
  · rw [readSection_of_lacks hlacks] at hname
    refine ⟨name, key, ⟨?_, ?_, hlacks⟩, (Except.error.inj hname).symm⟩
    · rw [← Std.ExtTreeSet.mem_toList, hsections]
      simp
    · intro other hother hlt
      have hsorted := (sortedLT_sections s).pairwise
      rw [← Std.ExtTreeSet.mem_toList, hsections] at hother
      rw [hsections, List.pairwise_append] at hsorted
      obtain hother | hother := List.mem_append.mp hother
      · obtain ⟨repository, hok⟩ := hbefore other hother
        exact complete_of_readSection hok
      · -- Of the names from this one on, none is smaller.
        obtain rfl | hafter := List.mem_cons.mp hother
        · exact absurd hlt (lt_irrefl _)
        · exact absurd hlt (lt_asymm (List.rel_of_pairwise_cons hsorted.2.1 hafter))

theorem ofSettings_eq_ok_iff :
    (∃ r, ofSettings s = .ok r) ↔ ∀ name ∈ s.sections, Complete s name := by
  constructor
  · rintro ⟨r, h⟩ name hname
    obtain ⟨repository, hget⟩ := get?_isSome_of_mem h hname
    exact complete_of_readSection ((get?_eq_some_iff h).mp hget).2
  · intro hcomplete
    cases h : ofSettings s with
    | ok r => exact ⟨r, rfl⟩
    | error e =>
      obtain ⟨name, key, hfault, -⟩ := firstFault_of_ofSettings h
      exact absurd (hcomplete name hfault.listed) hfault.lacks.not_complete

theorem ofSettings_eq_error_iff {e : SettingsError} :
    ofSettings s = .error e ↔ ∃ name key, FirstFault s name key ∧ e = .missingKey key := by
  constructor
  · exact firstFault_of_ofSettings
  · rintro ⟨name, key, hfault, rfl⟩
    cases h : ofSettings s with
    | ok r =>
      have hcomplete := ofSettings_eq_ok_iff.mp ⟨r, h⟩ name hfault.listed
      exact absurd hcomplete hfault.lacks.not_complete
    | error e =>
      obtain ⟨name', key', hfault', rfl⟩ := firstFault_of_ofSettings h
      rw [hfault'.unique hfault]

/-! ## The repositories -/

theorem names_eq_sections (h : ofSettings s = .ok r) : r.names = s.sections.toList := by
  have hnames : r.names.SortedLT :=
    (Std.ExtTreeMap.ordered_keys.imp fun h => compare_lt_iff_lt.mp h).sortedLT
  refine hnames.eq_of_mem_iff (sortedLT_sections s) fun name => ?_
  rw [names, Std.ExtTreeMap.mem_keys, Std.ExtTreeMap.mem_iff_isSome_getElem?,
    Std.ExtTreeSet.mem_toList]
  constructor
  · intro hname
    obtain ⟨repository, hget⟩ := Option.isSome_iff_exists.mp hname
    exact ((get?_eq_some_iff h).mp hget).1
  · intro hname
    obtain ⟨repository, hget⟩ := get?_isSome_of_mem h hname
    exact Option.isSome_iff_exists.mpr ⟨repository, hget⟩

/-- What a request for a name comes to: a job with the values of the section that has this
    name and with what was requested, or nothing. -/
inductive Requests (s : Settings) (name profile branch revision : String) :
    Except UnknownRepository Job → Prop where
  | known {url config : String} (hname : name ∈ s.sections)
      (hurl : s.get? (name ++ ".url") = some url)
      (hconfig : s.get? (name ++ ".config") = some config) :
      Requests s name profile branch revision
        (.ok { repo := name, url, branch, revision, config, profile })
  | unknown (hname : name ∉ s.sections) :
      Requests s name profile branch revision (.error ⟨name⟩)

theorem requests_resolve (h : ofSettings s = .ok r) (name profile branch revision : String) :
    Requests s name profile branch revision
      ((r.resolve name).map fun repository => repository.job profile branch revision) := by
  rw [resolve]
  cases hget : r.get? name with
  | some repository =>
    obtain ⟨hname, hok⟩ := (get?_eq_some_iff h).mp hget
    obtain ⟨url, config, hurl, hconfig, rfl⟩ := readSection_eq_ok.mp hok
    rw [String.append_assoc] at hurl hconfig
    exact .known hname hurl hconfig
  | none =>
    refine .unknown fun hname => ?_
    obtain ⟨repository, hsome⟩ := get?_isSome_of_mem h hname
    rw [hsome] at hget
    cases hget

/-- A registry is built if and only if all sections are complete. Its names are the sections,
    and a request gets the values of its own section. Otherwise the error is the first missing
    key of the first section that lacks one. -/
theorem ofSettings_exact (s : Settings) :
    ((∃ r, ofSettings s = .ok r) ↔ ∀ name ∈ s.sections, Complete s name) ∧
    (∀ r, ofSettings s = .ok r → r.names = s.sections.toList ∧
      ∀ name profile branch revision, Requests s name profile branch revision
        ((r.resolve name).map fun repository => repository.job profile branch revision)) ∧
    ∀ e, ofSettings s = .error e ↔ ∃ name key, FirstFault s name key ∧ e = .missingKey key :=
  ⟨ofSettings_eq_ok_iff, fun _ h => ⟨names_eq_sections h, requests_resolve h⟩,
    fun _ => ofSettings_eq_error_iff⟩

end BuildServer.Registry
