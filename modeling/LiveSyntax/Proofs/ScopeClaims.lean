import LiveSyntax.Language.Scope
import Mathlib.Data.List.Induction

/-!
# Who serves a scope

A scope table is kept in two directions: the scopes that each language lists, and the language that serves
each scope. Several languages may list one scope, and the last one to claim it serves it. This file
follows both directions through every sequence of changes.

The direction from scopes to languages is always right: a language that serves a scope is there and lists
it. The other direction is not. When the language that claimed a scope last gives it up, because it is
inserted again without it or is not retained, then nobody serves the scope any more, although another
language may still list it. What a table serves can be read off the history of its changes: the last claim
to the scope counts, as long as its owner keeps it.

## Main definitions

- `ScopeTable.Change`, `ScopeTable.Origin`: the changes of a table, and the tables to start from.
- `ScopeTable.Sound`: whoever serves a scope lists it.
- `ScopeTable.LastClaim`: the last claim to a scope in a history, with the changes after it.
- `ScopeTable.Served`: a scope leads to itself, and to a language that lists it.

## Main results

- `ScopeTable.Sound.languages_insert`: whom a scope leads to after a claim.
- `ScopeTable.reverse_table_sound`: the languages that serve scopes list them, after any changes.
- `ScopeTable.listed_scope_served_iff`: a listed scope is served exactly as long as its last claim is kept.
-/

namespace LiveSyntax

namespace ScopeTable

/-- A change of a table. -/
inductive Change where
  /-- A language claims scopes. -/
  | insert (language : String) (scopes : List String)
  /-- Only some languages are kept. -/
  | retain (kept : List String)

def apply (t : ScopeTable) : Change → ScopeTable
  | .insert language scopes => t.insert language scopes
  | .retain kept => t.retain kept

/-- The tables to start from. -/
inductive Origin where
  | empty
  | builtin
  | overridden (overrides : Std.TreeMap String (List String))

def Origin.table : Origin → ScopeTable
  | .empty => ScopeTable.empty
  | .builtin => ScopeTable.builtin
  | .overridden overrides => withOverrides overrides

/-- The claims that make up a table to start from, in the order in which they are made. -/
def Origin.claims : Origin → List (String × List String)
  | .empty => []
  | .builtin => builtinScopes
  | .overridden overrides =>
    (builtinScopes.filter fun claim => !overrides.contains claim.1) ++ overrides.toList

/-- All changes that lead to a table, from the empty one on. -/
def Origin.history (origin : Origin) (changes : List Change) : List Change :=
  (origin.claims.map fun claim => .insert claim.1 claim.2) ++ changes

theorem foldl_apply_claims (t : ScopeTable) (claims : List (String × List String)) :
    (claims.map fun claim => Change.insert claim.1 claim.2).foldl apply t = t.insertAll claims := by
  rw [List.foldl_map]
  rfl

theorem Origin.foldl_history (origin : Origin) (changes : List Change) :
    (origin.history changes).foldl apply ScopeTable.empty = changes.foldl apply origin.table := by
  rw [history, List.foldl_append, foldl_apply_claims]
  cases origin with
  | empty => rfl
  | builtin => rfl
  | overridden overrides => rw [claims, insertAll, List.foldl_append]; rfl

variable {t : ScopeTable} {scope language other : String} {scopes kept : List String}

/-! ### What a change does -/

theorem getElem?_release (languages : Std.TreeMap String String) (first : String) :
    (release language languages first)[scope]? =
      if first = scope ∧ languages[scope]? = some language then none else languages[scope]? := by
  unfold release
  by_cases heq : first = scope
  · subst heq
    by_cases hserved : languages[first]? = some language <;> simp [hserved]
  · split <;> simp [Std.TreeMap.getElem?_erase, heq]

theorem getElem?_foldl_release (scopes : List String) (languages : Std.TreeMap String String) :
    (scopes.foldl (release language) languages)[scope]? =
      if scope ∈ scopes ∧ languages[scope]? = some language then none else languages[scope]? := by
  induction scopes generalizing languages with
  | nil => simp
  | cons first scopes ih =>
    rw [List.foldl_cons, ih, getElem?_release]
    by_cases heq : first = scope
    · subst heq
      by_cases hserved : languages[first]? = some language <;> simp [hserved]
    · simp [heq, Ne.symm heq]

theorem getElem?_foldl_insert (scopes : List String) (languages : Std.TreeMap String String) :
    (scopes.foldl (fun table scope => table.insert scope language) languages)[scope]? =
      if scope ∈ scopes then some language else languages[scope]? := by
  induction scopes generalizing languages with
  | nil => simp
  | cons first scopes ih =>
    rw [List.foldl_cons, ih, Std.TreeMap.getElem?_insert]
    by_cases heq : first = scope
    · simp [heq]
    · simp [heq, Ne.symm heq]

theorem scopesOf_eq (t : ScopeTable) (language : String) :
    t.scopesOf language = t.scopes[language]?.getD [] :=
  Std.TreeMap.getD_eq_getD_getElem?

theorem scopes_insert :
    (t.insert language scopes).scopes[other]? =
      if other = language then some scopes else t.scopes[other]? := by
  rw [insert, Std.TreeMap.getElem?_insert]
  by_cases heq : other = language
  · simp [heq]
  · simp [heq, Ne.symm heq]

theorem scopes_retain :
    (t.retain kept).scopes[other]? = if other ∈ kept then t.scopes[other]? else none := by
  rw [retain, Std.TreeMap.getElem?_filter']
  cases t.scopes[other]? <;> simp [Option.filter]

/-- Whoever serves a scope lists it. -/
def Sound (t : ScopeTable) : Prop :=
  ∀ scope language : String, t.languages[scope]? = some language →
    ∃ scopes, t.scopes[language]? = some scopes ∧ scope ∈ scopes

theorem sound_empty : empty.Sound := by
  intro scope language h
  simp [empty] at h

theorem Sound.lists (h : t.Sound) (hserved : t.languages[scope]? = some language) :
    t.scopes.contains language = true ∧ scope ∈ t.scopesOf language := by
  obtain ⟨listed, hlist, hmem⟩ := h _ _ hserved
  rw [Std.TreeMap.contains_eq_isSome_getElem?, scopesOf_eq, hlist]
  exact ⟨rfl, hmem⟩

/-- **After a claim**, the language serves what it claims and nothing else; other languages go on serving
what was not claimed. -/
theorem Sound.languages_insert (h : t.Sound) :
    (t.insert language scopes).languages[scope]? =
      if scope ∈ scopes then some language
      else if t.languages[scope]? = some language then none else t.languages[scope]? := by
  rw [insert, getElem?_foldl_insert, getElem?_foldl_release]
  by_cases hserved : t.languages[scope]? = some language
  · -- Whatever the language still serves is in its old list, so it is given up.
    simp [hserved, (h.lists hserved).2]
  · simp [hserved]

theorem Sound.languages_retain (h : t.Sound) :
    (t.retain kept).languages[scope]? = t.languages[scope]?.filter (kept.contains ·) := by
  rw [retain, Std.TreeMap.getElem?_filter']
  cases hserved : t.languages[scope]? with
  | none => rfl
  | some language =>
    obtain ⟨listed, hlist, -⟩ := h _ _ hserved
    have hkept : (t.scopes.filter fun language _ => kept.contains language).contains language =
        kept.contains language := by
      rw [Std.TreeMap.contains_eq_isSome_getElem?, Std.TreeMap.getElem?_filter', hlist]
      cases kept.contains language <;> rfl
    simp only [Option.filter_some, hkept]

theorem Sound.insert (h : t.Sound) (language : String) (scopes : List String) :
    (t.insert language scopes).Sound := by
  intro scope other hserved
  rw [h.languages_insert] at hserved
  rw [scopes_insert]
  split at hserved
  · next hclaimed =>
    cases hserved
    exact ⟨scopes, if_pos rfl, hclaimed⟩
  · split at hserved
    · cases hserved
    · next hother =>
      have hne : other ≠ language := fun heq => hother (heq ▸ hserved)
      rw [if_neg hne]
      exact h _ _ hserved

theorem Sound.retain (h : t.Sound) (kept : List String) : (t.retain kept).Sound := by
  intro scope language hserved
  rw [h.languages_retain, Option.filter_eq_some_iff] at hserved
  rw [scopes_retain, if_pos (List.contains_iff_mem.mp hserved.2)]
  exact h _ _ hserved.1

theorem Sound.apply (h : t.Sound) (change : Change) : (t.apply change).Sound := by
  cases change with
  | insert language scopes => exact h.insert language scopes
  | retain kept => exact h.retain kept

theorem Sound.foldl_apply (h : t.Sound) (changes : List Change) : (changes.foldl ScopeTable.apply t).Sound := by
  induction changes generalizing t with
  | nil => exact h
  | cons change changes ih => exact ih (h.apply change)

theorem Origin.sound (origin : Origin) (changes : List Change) :
    (changes.foldl apply origin.table).Sound := by
  rw [← foldl_history]
  exact sound_empty.foldl_apply _

/-- **The languages that serve scopes list them.** After any changes of a table that one can start from,
every language that serves a scope is there and lists it. When a language then claims scopes, it serves
exactly those; every other scope that it served is free, and any other keeps its language; and only its
own list changes. -/
theorem reverse_table_sound (origin : Origin) (changes : List Change) :
    let t := changes.foldl apply origin.table
    (∀ scope language, t.languages[scope]? = some language →
      t.scopes.contains language = true ∧ scope ∈ t.scopesOf language) ∧
    ∀ language scopes,
      let u := t.insert language scopes
      (∀ scope, u.languages[scope]? = some language ↔ scope ∈ scopes) ∧
      (∀ scope, scope ∉ scopes → t.languages[scope]? = some language → u.languages[scope]? = none) ∧
      (∀ scope, scope ∉ scopes → t.languages[scope]? ≠ some language →
        u.languages[scope]? = t.languages[scope]?) ∧
      u.scopes[language]? = some scopes ∧
      ∀ other, other ≠ language → u.scopes[other]? = t.scopes[other]? := by
  intro t
  have hsound : t.Sound := origin.sound changes
  refine ⟨fun scope language hserved => hsound.lists hserved, fun language scopes => ⟨fun scope => ?_,
    fun scope hfree hserved => ?_, fun scope hfree hother => ?_, ?_, fun other hne => ?_⟩⟩
  · rw [hsound.languages_insert]
    by_cases hmem : scope ∈ scopes
    · simp [hmem]
    · by_cases hserved : t.languages[scope]? = some language <;> simp [hmem, hserved]
  · rw [hsound.languages_insert, if_neg hfree, if_pos hserved]
  · rw [hsound.languages_insert, if_neg hfree, if_neg hother]
  · rw [scopes_insert, if_pos rfl]
  · rw [scopes_insert, if_neg hne]

/-- The second language takes over one of two scopes, so the first one cannot give it up any more. -/
theorem reverse_table_sound_taken_over :
    let t := [Change.insert "html" ["text.html", "text.xml"], .insert "vue" ["text.html"]].foldl apply
      Origin.empty.table
    let u := t.insert "html" ["text.htm"]
    u.languages["text.htm"]? = some "html" ∧ u.languages["text.html"]? = some "vue" ∧
      u.languages["text.xml"]? = none ∧ u.scopes["vue"]? = some ["text.html"] := by
  intro t u
  obtain ⟨-, hinsert⟩ := reverse_table_sound .empty
    [.insert "html" ["text.html", "text.xml"], .insert "vue" ["text.html"]]
  obtain ⟨hclaimed, hfreed, hkept, -, hothers⟩ := hinsert "html" ["text.htm"]
  have hvue : t.languages["text.html"]? = some "vue" := by decide +kernel
  have hxml : t.languages["text.xml"]? = some "html" := by decide +kernel
  have hlist : t.scopes["vue"]? = some ["text.html"] := by decide +kernel
  refine ⟨(hclaimed "text.htm").mpr (by decide), ?_, hfreed "text.xml" (by decide) hxml, ?_⟩
  · rw [hkept "text.html" (by decide) (by rw [hvue]; decide), hvue]
  · rw [hothers "vue" (by decide), hlist]

/-! ### Claims that are kept -/

namespace Change

/-- The change claims a scope for some language. -/
def Claims : Change → String → Prop
  | .insert _ scopes, scope => scope ∈ scopes
  | .retain _, _ => False

/-- The change leaves a language as it is: the language is not inserted again and not dropped. -/
def keeps : Change → String → Bool
  | .insert other _, language => other != language
  | .retain kept, language => kept.contains language

end Change

/-- The last claim to a scope in a history is that of `owner`, and then come the changes `after`. -/
def LastClaim (history : List Change) (scope owner : String) (after : List Change) : Prop :=
  ∃ before scopes, history = before ++ .insert owner scopes :: after ∧ scope ∈ scopes ∧
    ∀ change ∈ after, ¬change.Claims scope

/-- A scope leads to itself, and to a language that is there and lists it. -/
def Served (t : ScopeTable) (scope : String) : Prop :=
  t.resolve? scope = some scope ∧ ∃ language, t.languageOf? scope = some language ∧
    t.scopes.contains language = true ∧ scope ∈ t.scopesOf language

theorem Sound.served_iff (h : t.Sound) : t.Served scope ↔ t.languages[scope]?.isSome = true := by
  constructor
  · rintro ⟨hself, language, hlanguage, -⟩
    rw [languageOf?, hself] at hlanguage
    exact Option.isSome_of_eq_some hlanguage
  · intro hsome
    obtain ⟨language, hserved⟩ := Option.isSome_iff_exists.mp hsome
    have hself : t.resolve? scope = some scope := by
      rw [resolve?, if_pos (Std.TreeMap.contains_eq_isSome_getElem?.trans hsome)]
    refine ⟨hself, language, ?_, h.lists hserved⟩
    rw [languageOf?, hself]
    exact hserved

/-- A change that does not claim a scope leaves its language, if it keeps that language as it is. -/
theorem Sound.languages_apply (h : t.Sound) {change : Change} (hfree : ¬change.Claims scope) :
    (t.apply change).languages[scope]? = t.languages[scope]?.filter change.keeps := by
  cases change with
  | insert language scopes =>
    have hnot : scope ∉ scopes := hfree
    rw [ScopeTable.apply, h.languages_insert, if_neg hnot]
    cases t.languages[scope]? with
    | none => rfl
    | some owner =>
      rw [Option.filter_some]
      by_cases heq : owner = language
      · simp [Change.keeps, heq]
      · simp [Change.keeps, heq, Ne.symm heq]
  | retain kept => exact h.languages_retain

/-- **Changes that do not claim a scope** leave its language, if all of them keep that language as it is. -/
theorem Sound.languages_foldl_apply (h : t.Sound) {changes : List Change}
    (hfree : ∀ change ∈ changes, ¬change.Claims scope) :
    (changes.foldl ScopeTable.apply t).languages[scope]? =
      t.languages[scope]?.filter fun owner => changes.all (·.keeps owner) := by
  induction changes generalizing t with
  | nil => cases hserved : t.languages[scope]? <;> simp [hserved, Option.filter_some]
  | cons change changes ih =>
    obtain ⟨hfirst, hrest⟩ := List.forall_mem_cons.mp hfree
    rw [List.foldl_cons, ih (h.apply change) hrest, h.languages_apply hfirst, Option.filter_filter]
    simp only [List.all_cons]

/-- A table that lists a scope comes from one that did, or the change claims the scope. -/
theorem listed_of_apply {change : Change} (h : scope ∈ (t.apply change).scopesOf language) :
    change.Claims scope ∨ scope ∈ t.scopesOf language := by
  rw [scopesOf_eq] at h ⊢
  cases change with
  | insert other scopes =>
    rw [ScopeTable.apply, scopes_insert] at h
    split at h
    · exact .inl h
    · exact .inr h
  | retain kept =>
    rw [ScopeTable.apply, scopes_retain] at h
    split at h
    · exact .inr h
    · exact absurd h List.not_mem_nil

theorem claimed_of_listed {changes : List Change}
    (h : scope ∈ (changes.foldl ScopeTable.apply t).scopesOf language) :
    (∃ change ∈ changes, change.Claims scope) ∨ scope ∈ t.scopesOf language := by
  induction changes generalizing t with
  | nil => exact .inr h
  | cons change changes ih =>
    rcases ih h with ⟨later, hlater, hclaims⟩ | hlisted
    · exact .inl ⟨later, List.mem_cons_of_mem _ hlater, hclaims⟩
    · rcases listed_of_apply hlisted with hclaims | hbefore
      · exact .inl ⟨change, List.mem_cons_self, hclaims⟩
      · exact .inr hbefore

/-- If there is a claim to a scope, there is a last one. -/
theorem exists_lastClaim {history : List Change} (h : ∃ change ∈ history, change.Claims scope) :
    ∃ owner after, LastClaim history scope owner after := by
  induction history using List.reverseRecOn with
  | nil => simp at h
  | append_singleton history last ih =>
    by_cases hlast : last.Claims scope
    · cases last with
      | insert owner scopes => exact ⟨owner, [], history, scopes, rfl, hlast, by simp⟩
      | retain kept => exact hlast.elim
    · obtain ⟨change, hchange, hclaims⟩ := h
      have hbefore : change ∈ history := by
        rcases List.mem_append.mp hchange with hold | hnew
        · exact hold
        · exact absurd (List.mem_singleton.mp hnew ▸ hclaims) hlast
      obtain ⟨owner, after, before, scopes, rfl, hmem, hfree⟩ := ih ⟨change, hbefore, hclaims⟩
      refine ⟨owner, after ++ [last], before, scopes, by simp, hmem, fun change hchange => ?_⟩
      rcases List.mem_append.mp hchange with hold | hnew
      · exact hfree change hold
      · exact List.mem_singleton.mp hnew ▸ hlast

/-- The owner of the last claim serves the scope as long as no later change is about the owner. -/
theorem LastClaim.served_iff {history after : List Change} {owner : String}
    (h : LastClaim history scope owner after) :
    (history.foldl ScopeTable.apply empty).Served scope ↔ ∀ change ∈ after, change.keeps owner = true := by
  obtain ⟨before, scopes, rfl, hmem, hfree⟩ := h
  have hbefore := sound_empty.foldl_apply before
  have hclaimed := hbefore.insert owner scopes
  rw [(sound_empty.foldl_apply _).served_iff, List.foldl_append, List.foldl_cons,
    ScopeTable.apply, hclaimed.languages_foldl_apply hfree, hbefore.languages_insert, if_pos hmem]
  simp

/-- **A listed scope is served exactly as long as its last claim is kept.** After any changes of a table that
one can start from, let a language list a scope. Then some claim to the scope was the last one. The scope
leads to itself, and to a language that is there and lists it, if and only if the owner of that claim has
neither been inserted again nor been dropped since. -/
theorem listed_scope_served_iff (origin : Origin) (changes : List Change) (language scope : String)
    (hlisted : scope ∈ (changes.foldl apply origin.table).scopesOf language) :
    (∃ owner after, LastClaim (origin.history changes) scope owner after) ∧
    ∀ owner after, LastClaim (origin.history changes) scope owner after →
      ((changes.foldl apply origin.table).Served scope ↔
        ∀ change ∈ after, change.keeps owner = true) := by
  rw [← origin.foldl_history changes] at hlisted ⊢
  have hclaimed : ∃ change ∈ origin.history changes, change.Claims scope := by
    rcases claimed_of_listed hlisted with hclaims | hnever
    · exact hclaims
    · simp [scopesOf_eq, empty] at hnever
  exact ⟨exists_lastClaim hclaimed, fun owner after hlast => hlast.served_iff⟩

/-- A second language claims the scope of the first one, then claims nothing, and a third one claims another
scope. The last claim was withdrawn, so the scope is not served, although the first language lists it. -/
theorem listed_scope_served_iff_claim_withdrawn :
    let changes := [Change.insert "python" ["source.python"], .insert "zython" ["source.python"],
      .insert "zython" [], .insert "rust" ["source.rust"]]
    let t := changes.foldl apply Origin.empty.table
    "source.python" ∈ t.scopesOf "python" ∧ ¬t.Served "source.python" := by
  intro changes t
  have hlisted : "source.python" ∈ t.scopesOf "python" := by decide +kernel
  obtain ⟨-, hserved⟩ := listed_scope_served_iff .empty changes "python" "source.python" hlisted
  have hlast : LastClaim (Origin.empty.history changes) "source.python" "zython"
      [.insert "zython" [], .insert "rust" ["source.rust"]] := by
    refine ⟨[.insert "python" ["source.python"]], ["source.python"], rfl, List.mem_cons_self, ?_⟩
    simp [Change.Claims]
  refine ⟨hlisted, fun h => ?_⟩
  have hkept := (hserved _ _ hlast).mp h _ List.mem_cons_self
  simp [Change.keeps] at hkept

/-- A second language claims the scope of the first one, and only the first one is retained. It still lists
the scope, which leads nowhere. -/
theorem listed_scope_orphaned :
    let t := [Change.insert "python" ["source.python"], .insert "zython" ["source.python"],
      .retain ["python"]].foldl apply Origin.empty.table
    t.scopes.contains "python" = true ∧ "source.python" ∈ t.scopesOf "python" ∧
      t.resolve? "source.python" = none ∧ t.languageOf? "source.python" = none := by
  decide +kernel

end ScopeTable

end LiveSyntax
