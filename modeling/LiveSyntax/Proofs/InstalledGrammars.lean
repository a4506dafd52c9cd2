import LiveSyntax.Language.Registry
import Mathlib.Data.List.Dedup

/-!
# The grammars of user settings

User settings name the languages that are installed, and the host brings those that it could load. The
registry of the two is made by a loop: one grammar after the other becomes known, and after each of them
the whole scope table is cut down to the known grammars again. The settings by themselves cut the table
down once, to the languages that they name. Both ways lead to the same scopes, whatever the overrides
are, and in whatever order and how often the host brings its languages.

## Main definitions

- `Registry.Current`: the scopes in use are those of the known grammars.
- `Registry.lastSupplied?`: the language that the host brought last under a name.

## Main results

- `Registry.getElem?_ofSettings`: what is known about each grammar in the end.
- `Registry.ofSettings_agrees`: names, scopes and availability as the settings have them.
-/

namespace LiveSyntax

/-- It does not matter in which order, or how often, the languages to keep are named. -/
theorem ScopeTable.retain_congr (t : ScopeTable) {kept others : List String}
    (h : ∀ language, language ∈ kept ↔ language ∈ others) : t.retain kept = t.retain others := by
  have hsame : kept.contains = others.contains := by
    funext language
    simp [h]
  rw [retain, retain, hsame]

namespace Registry

variable {r : Registry} {scopes : ScopeTable} {name other : String}

/-! ### The loop keeps the scopes current -/

/-- The scopes in use are those of the known grammars. A registry that knows no grammar yet has not cut
anything out of the table. -/
def Current (r : Registry) (scopes : ScopeTable) : Prop :=
  r.allScopes = scopes ∧ (r.names ≠ [] → r.scopes = scopes.retain r.names)

theorem current_withScopes (scopes : ScopeTable) : (withScopes scopes).Current scopes :=
  ⟨rfl, fun hsome => absurd rfl hsome⟩

theorem Current.set (h : r.Current scopes) (name : String) (availability : Availability) :
    (r.set name availability).Current scopes := by
  obtain ⟨rfl, -⟩ := h
  exact ⟨rfl, fun _ => rfl⟩

theorem current_ofSettings (settings : Settings) (languages : List (String × Language)) :
    (ofSettings settings languages).Current settings.scopeTable := by
  rw [ofSettings]
  have hregistered := List.foldlRecOn (motive := (Current · settings.scopeTable))
    (languages.filter fun entry =>
      settings.installedLanguages.isEmpty || settings.installedLanguages.contains entry.1)
    (fun r entry => r.register entry.1 entry.2) (current_withScopes settings.scopeTable)
    fun r h entry _ => h.set entry.1 (.loaded entry.2)
  refine List.foldlRecOn (motive := (Current · settings.scopeTable)) _ _ hregistered fun r h name _ => ?_
  split
  · exact h
  · exact h.set name _

/-! ### What the loop knows about a grammar -/

theorem getElem?_set (availability : Availability) :
    (r.set name availability).grammars[other]? =
      if other = name then some availability else r.grammars[other]? := by
  rw [Registry.set, Std.TreeMap.getElem?_insert]
  by_cases heq : other = name
  · simp [heq]
  · simp [heq, Ne.symm heq]

/-- The language that came last under a name. -/
def lastSupplied? (languages : List (String × Language)) (name : String) : Option Language :=
  languages.reverse.lookup name

theorem lastSupplied?_cons (entry : String × Language) (languages : List (String × Language)) :
    lastSupplied? (entry :: languages) name =
      (lastSupplied? languages name).or (if name = entry.1 then some entry.2 else none) := by
  obtain ⟨first, language⟩ := entry
  rw [lastSupplied?, List.reverse_cons, List.lookup_append, lastSupplied?]
  by_cases heq : name = first
  · simp [heq]
  · simp [List.lookup_cons, heq, beq_false_of_ne heq]

theorem isSome_lastSupplied?_iff {languages : List (String × Language)} :
    (lastSupplied? languages name).isSome ↔ name ∈ languages.map Prod.fst := by
  induction languages with
  | nil => simp [lastSupplied?]
  | cons entry languages ih =>
    rw [lastSupplied?_cons, Option.isSome_or, Bool.or_eq_true, ih, List.map_cons, List.mem_cons]
    by_cases heq : name = entry.1 <;> simp [heq]

/-- Leaving out names leaves the others as they were. -/
theorem lastSupplied?_filter (wanted : String → Bool) (languages : List (String × Language)) :
    lastSupplied? (languages.filter fun entry => wanted entry.1) name =
      if wanted name then lastSupplied? languages name else none := by
  induction languages with
  | nil => simp [lastSupplied?]
  | cons entry languages ih =>
    rw [List.filter_cons]
    by_cases heq : name = entry.1
    · by_cases hwanted : wanted entry.1 = true <;> simp_all [lastSupplied?_cons]
    · split <;> simp_all [lastSupplied?_cons]

/-- **Registering languages**, the last one under each name counts. -/
theorem getElem?_foldl_register (languages : List (String × Language)) (r : Registry) :
    (languages.foldl (fun r entry => r.register entry.1 entry.2) r).grammars[name]? =
      ((lastSupplied? languages name).map .loaded).or r.grammars[name]? := by
  induction languages generalizing r with
  | nil => simp [lastSupplied?]
  | cons entry languages ih =>
    rw [List.foldl_cons, ih, register, getElem?_set, lastSupplied?_cons]
    cases lastSupplied? languages name with
    | some language => rfl
    | none => by_cases heq : name = entry.1 <;> simp [heq]

/-- **Marking what is missing** leaves the known grammars alone. -/
theorem getElem?_foldl_markUnavailable (names : List String) (reason : String) (r : Registry) :
    (names.foldl (fun r name => if r.isSupported name then r else r.markUnavailable name reason)
        r).grammars[name]? =
      r.grammars[name]?.or (if name ∈ names then some (.unavailable reason) else none) := by
  induction names generalizing r with
  | nil => simp
  | cons first names ih =>
    rw [List.foldl_cons, ih]
    have hfirst : (if r.isSupported first then r else r.markUnavailable first reason).grammars[name]? =
        r.grammars[name]?.or (if name = first then some (.unavailable reason) else none) := by
      rw [isSupported, Std.TreeMap.contains_eq_isSome_getElem?]
      cases hknown : r.grammars[first]? with
      | some availability => by_cases heq : name = first <;> simp_all
      | none =>
        rw [Option.isSome_none, if_neg Bool.false_ne_true, markUnavailable, getElem?_set]
        by_cases heq : name = first <;> simp_all
    rw [hfirst]
    cases r.grammars[name]? with
    | some availability => rfl
    | none => by_cases heq : name = first <;> simp [heq]

/-- **What the settings and the host say about a grammar.** An installed language has the grammar that the
host brought last, or none to load, and nothing else is known. -/
theorem getElem?_ofSettings {settings : Settings} (hinstalled : settings.installedLanguages ≠ [])
    (languages : List (String × Language)) :
    (ofSettings settings languages).grammars[name]? =
      if name ∈ settings.installedLanguages then
        some ((lastSupplied? languages name).elim (.unavailable notProvided) .loaded)
      else none := by
  have hsome : settings.installedLanguages.isEmpty = false := List.isEmpty_eq_false_iff.mpr hinstalled
  have hnone : (withScopes settings.scopeTable).grammars[name]? = none :=
    Std.TreeMap.getElem?_emptyc
  simp only [ofSettings, hsome, Bool.false_or]
  rw [getElem?_foldl_markUnavailable, getElem?_foldl_register, hnone,
    lastSupplied?_filter fun name => settings.installedLanguages.contains name]
  by_cases hmem : name ∈ settings.installedLanguages
  · cases lastSupplied? languages name <;> simp [hmem]
  · simp [hmem]

/-! ### Names, scopes, availability -/

theorem mem_names_iff : name ∈ r.names ↔ r.grammars[name]?.isSome := by
  rw [names, Std.TreeMap.mem_keys, ← Std.TreeMap.contains_eq_isSome_getElem?,
    Std.TreeMap.contains_iff_mem]

/-- Names are listed in order and without repeats, so it is enough to know which they are. -/
theorem names_eq_mergeSort {l : List String} (h : ∀ name, name ∈ r.names ↔ name ∈ l) :
    r.names = l.dedup.mergeSort := by
  have hperm : r.names.Perm l.dedup := by
    refine (List.perm_ext_iff_of_nodup Std.TreeMap.nodup_keys l.nodup_dedup).mpr fun name => ?_
    rw [List.mem_dedup]
    exact h name
  have hordered : r.names.Pairwise (compare · · = .lt) := Std.TreeMap.ordered_keys
  have hnames : r.names.Pairwise (· ≤ ·) :=
    hordered.imp fun hlt => Std.le_of_lt (compareOfLessAndEq_eq_lt.mp hlt)
  have hsorted : l.dedup.mergeSort.Pairwise (· ≤ ·) := by
    have hpairs := @List.pairwise_mergeSort String (fun a b => a ≤ b)
      (by simpa using fun a b c => String.le_trans) (by simpa using String.le_total) l.dedup
    simpa using hpairs
  exact (hperm.trans (l.dedup.mergeSort_perm _).symm).eq_of_pairwise
    (fun a b _ _ => String.le_antisymm) hnames hsorted

/-- **The registry is what the settings say.** Let the settings name at least one language, and let the host
bring any languages, also unknown ones and some of them again and again. The names that the registry knows
are the installed languages, each once and in order. Every scope leads where it leads in the table of the
installed languages. A grammar can be used if it is installed and was brought, is unavailable if it is
installed and was not brought, and is unsupported if it is not installed. -/
theorem ofSettings_agrees (settings : Settings) (languages : List (String × Language))
    (hinstalled : settings.installedLanguages ≠ []) :
    let r := ofSettings settings languages
    r.names = settings.installedLanguages.dedup.mergeSort ∧
    (∀ scope, r.grammarOfScope? scope = settings.installedScopeTable.languageOf? scope) ∧
    ∀ name,
      ((∃ language, r.grammarFor name = .ok language) ↔
        name ∈ settings.installedLanguages ∧ name ∈ languages.map Prod.fst) ∧
      ((∃ reason, r.grammarFor name = .error (.unavailable name reason)) ↔
        name ∈ settings.installedLanguages ∧ name ∉ languages.map Prod.fst) ∧
      (r.grammarFor name = .error (.unsupported name) ↔ name ∉ settings.installedLanguages) := by
  intro r
  have hknown : ∀ name, r.grammars[name]? = _ := fun name => getElem?_ofSettings hinstalled languages
  have hnames : ∀ name, name ∈ r.names ↔ name ∈ settings.installedLanguages := by
    intro name
    rw [mem_names_iff, hknown]
    by_cases hmem : name ∈ settings.installedLanguages <;> simp [hmem]
  refine ⟨names_eq_mergeSort hnames, fun scope => ?_, fun name => ?_⟩
  · -- Some language is installed, so the last round of the loop has cut the table down.
    obtain ⟨-, hscopes⟩ := current_ofSettings settings languages
    obtain ⟨first, hfirst⟩ := List.exists_mem_of_ne_nil _ hinstalled
    have hsome : r.names ≠ [] := List.ne_nil_of_mem ((hnames first).mpr hfirst)
    rw [grammarOfScope?, hscopes hsome, Settings.installedScopeTable, ScopeTable.retain_congr _ hnames]
  · rw [← isSome_lastSupplied?_iff, grammarFor, hknown]
    by_cases hmem : name ∈ settings.installedLanguages
    · cases lastSupplied? languages name <;> simp [hmem]
    · simp [hmem]

/-- One language is installed twice and not brought, one is brought twice, and one is not installed. An
override takes a longer scope of the second one away, but its owner is not installed either. -/
theorem ofSettings_agrees_repeated_names :
    let settings : Settings :=
      { Settings.default with
        installedLanguages := ["yaml", "python", "yaml"]
        scopeOverrides := .ofList [("zython", ["source.python.embedded"])] }
    let languages : List (String × Language) :=
      [("rust", ⟨"rust"⟩), ("python", ⟨"python"⟩), ("python", ⟨"python3"⟩)]
    let r := ofSettings settings languages
    settings.installedLanguages ≠ [] ∧ r.names = ["python", "yaml"] ∧
      r.grammarOfScope? "source.python.embedded" = some "python" ∧
      (∃ language, r.grammarFor "python" = .ok language) ∧
      (∃ reason, r.grammarFor "yaml" = .error (.unavailable "yaml" reason)) ∧
      r.grammarFor "rust" = .error (.unsupported "rust") := by
  intro settings languages r
  have hinstalled : settings.installedLanguages ≠ [] := by decide
  obtain ⟨hnames, hscopes, hgrammars⟩ := ofSettings_agrees settings languages hinstalled
  have hdistinct : settings.installedLanguages.dedup = ["python", "yaml"] := by decide
  have hsorted : ["python", "yaml"].mergeSort = ["python", "yaml"] :=
    List.mergeSort_of_pairwise (by decide)
  rw [hdistinct, hsorted] at hnames
  exact ⟨hinstalled, hnames, (hscopes _).trans (by decide +kernel),
    (hgrammars "python").1.mpr (by decide), (hgrammars "yaml").2.1.mpr (by decide),
    (hgrammars "rust").2.2.mpr (by decide)⟩

end Registry

end LiveSyntax
