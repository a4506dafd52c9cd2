import LiveSyntax.Proofs.ScopeClaims
import LiveSyntax.Proofs.Utf8
import Mathlib.Data.List.Nodup
import Mathlib.Data.List.Pairwise

/-!
# Overrides of the built-in scopes

A table with overrides is made by one claim after the other: first the built-in languages that no override names,
then the overrides in the order of their names. Every language makes one claim, so no claim is ever withdrawn, and a
scope is served by the last language that lists it. The overrides come after all built-in languages, and the last of
them is the greatest. Two built-in languages never list the same scope, so it does not matter which of them comes
last.

## Main definitions

- `ScopeTable.Overriding`, `ScopeTable.BuiltIn`: an override, or a built-in language, lists a scope.
- `ScopeTable.nameBytes`: the bytes of a name, by which names are ordered.

## Main results

- `ScopeTable.languages_insertAll`: of claims by different languages, the last one to list a scope wins.
- `ScopeTable.withOverrides_overlays`: the overrides lie over the built-in claims.
- `ScopeTable.overrides_win`: registered scopes, their languages, the lists and the names.
-/

namespace LiveSyntax.ScopeTable

variable {t : ScopeTable} {scope language other : String} {scopes : List String}
  {claims : List (String × List String)} {overrides : Std.TreeMap String (List String)}

/-! ### Claims by different languages -/

theorem insertAll_concat (claim : String × List String) :
    t.insertAll (claims ++ [claim]) = (t.insertAll claims).insert claim.1 claim.2 := by
  rw [insertAll, List.foldl_append]
  rfl

theorem sound_insertAll (claims : List (String × List String)) : (empty.insertAll claims).Sound := by
  rw [← foldl_apply_claims]
  exact sound_empty.foldl_apply _

theorem not_mem_of_nodup_concat {claim : String × List String}
    (h : ((claims ++ [claim]).map Prod.fst).Nodup) : (claims.map Prod.fst).Nodup ∧ ∀ earlier ∈ claims,
      earlier.1 ≠ claim.1 := by
  rw [List.map_append, List.map_singleton, List.nodup_append] at h
  exact ⟨h.1, fun earlier hearlier => h.2.2 _ (List.mem_map_of_mem hearlier) _ (List.mem_singleton_self _)⟩

/-- If every language makes one claim, it lists what it claims. -/
theorem scopes_insertAll (hnames : (claims.map Prod.fst).Nodup) :
    (empty.insertAll claims).scopes[language]? = some scopes ↔ (language, scopes) ∈ claims := by
  induction claims using List.reverseRecOn with
  | nil => simp [insertAll, empty]
  | append_singleton claims claim ih =>
    obtain ⟨hearlier, hnew⟩ := not_mem_of_nodup_concat hnames
    rw [insertAll_concat, scopes_insert, List.mem_append, List.mem_singleton]
    split
    · next heq =>
      subst heq
      have hnot : (claim.1, scopes) ∉ claims := fun hmem => hnew _ hmem rfl
      rw [or_iff_right hnot, Option.some.injEq, Prod.ext_iff, eq_comm]
      exact (and_iff_right rfl).symm
    · next hne =>
      rw [ih hearlier]
      exact (or_iff_left fun heq => hne (congrArg Prod.fst heq)).symm

/-- **If every language makes one claim, the last one to list a scope serves it.** -/
theorem languages_insertAll (hnames : (claims.map Prod.fst).Nodup) (scope : String) :
    (empty.insertAll claims).languages[scope]? = (claims.findRev? (scope ∈ ·.2)).map Prod.fst := by
  induction claims using List.reverseRecOn with
  | nil => simp [insertAll, empty]
  | append_singleton claims claim ih =>
    obtain ⟨hearlier, hnew⟩ := not_mem_of_nodup_concat hnames
    have hsound := sound_insertAll claims
    -- Nobody serves a scope for a language that has not claimed anything yet.
    have hnobody : (empty.insertAll claims).languages[scope]? ≠ some claim.1 := by
      intro hserved
      obtain ⟨listed, hlist, -⟩ := hsound _ _ hserved
      exact hnew _ ((scopes_insertAll hearlier).mp hlist) rfl
    rw [insertAll_concat, hsound.languages_insert, if_neg hnobody, ih hearlier]
    simp only [List.findRev?_eq_find?_reverse, List.reverse_append, List.reverse_singleton, List.singleton_append,
      List.find?_cons]
    by_cases hmem : scope ∈ claim.2 <;> simp [hmem]

/-! ### The order of names -/

/-- The bytes of a name, by which names are ordered. -/
def nameBytes (name : String) : List UInt8 :=
  Text.bytes name.toList

theorem nameBytes_lt_iff : nameBytes language < nameBytes other ↔ compare language other = .lt := by
  rw [nameBytes, nameBytes, Utf8.bytes_lt_bytes_iff, ← String.lt_iff]
  exact compareOfLessAndEq_eq_lt.symm

/-! ### Overrides and built-in languages -/

/-- An override lists a scope for a language. -/
def Overriding (overrides : Std.TreeMap String (List String)) (language scope : String) : Prop :=
  ∃ scopes, overrides[language]? = some scopes ∧ scope ∈ scopes

/-- A built-in language lists a scope. -/
def BuiltIn (language scope : String) : Prop :=
  ∃ scopes, (language, scopes) ∈ builtinScopes ∧ scope ∈ scopes

/-- The claims of the built-in languages that no override names. -/
def remaining (overrides : Std.TreeMap String (List String)) : List (String × List String) :=
  builtinScopes.filter fun claim => !overrides.contains claim.1

theorem mem_remaining {claim : String × List String} :
    claim ∈ remaining overrides ↔ claim ∈ builtinScopes ∧ overrides.contains claim.1 = false := by
  rw [remaining, List.mem_filter, Bool.not_eq_true']

theorem nodup_builtin_names : (builtinScopes.map Prod.fst).Nodup := by
  decide +kernel

theorem nodup_builtin_scopes : (builtinScopes.flatMap Prod.snd).Nodup := by
  decide +kernel

/-- Two built-in languages never list the same scope. -/
theorem BuiltIn.unique (h : BuiltIn language scope) (h' : BuiltIn other scope) : language = other := by
  obtain ⟨scopes, hclaim, hmem⟩ := h
  obtain ⟨scopes', hclaim', hmem'⟩ := h'
  by_contra hne
  have hapart := (List.nodup_flatMap.mp nodup_builtin_scopes).2
  have hsymm : Std.Symm (Function.onFun List.Disjoint fun claim : String × List String => claim.2) :=
    ⟨fun _ _ hdisjoint _ hleft hright => hdisjoint hright hleft⟩
  exact hapart.forall hclaim hclaim' (fun heq => hne (congrArg Prod.fst heq)) hmem hmem'

theorem withOverrides_eq (overrides : Std.TreeMap String (List String)) :
    withOverrides overrides = empty.insertAll (remaining overrides ++ overrides.toList) := by
  rw [insertAll, List.foldl_append]
  rfl

theorem nodup_claims (overrides : Std.TreeMap String (List String)) :
    ((remaining overrides ++ overrides.toList).map Prod.fst).Nodup := by
  rw [List.map_append, Std.TreeMap.map_fst_toList_eq_keys]
  refine List.nodup_append.mpr ⟨?_, Std.TreeMap.nodup_keys, ?_⟩
  · exact nodup_builtin_names.sublist (List.filter_sublist.map Prod.fst)
  · rintro name hname _ hkey rfl
    obtain ⟨claim, hclaim, rfl⟩ := List.mem_map.mp hname
    rw [Std.TreeMap.mem_keys, Std.TreeMap.mem_iff_contains, (mem_remaining.mp hclaim).2] at hkey
    cases hkey

theorem scopes_withOverrides : (withOverrides overrides).scopes[language]? = some scopes ↔
    overrides[language]? = some scopes ∨
      (language, scopes) ∈ builtinScopes ∧ overrides.contains language = false := by
  rw [withOverrides_eq, scopes_insertAll (nodup_claims overrides), List.mem_append, mem_remaining,
    Std.TreeMap.mem_toList_iff_getElem?_eq_some, or_comm]

/-- **The overrides lie over the built-in claims.** -/
theorem withOverrides_overlays (overrides : Std.TreeMap String (List String)) (scope : String) :
    (withOverrides overrides).languages[scope]? =
      ((overrides.toList.findRev? (scope ∈ ·.2)).or ((remaining overrides).findRev? (scope ∈ ·.2))).map
        Prod.fst := by
  rw [withOverrides_eq, languages_insertAll (nodup_claims overrides)]
  simp only [List.findRev?_eq_find?_reverse, List.reverse_append, List.find?_append]

/-- The last override to list a scope is the greatest one to do so. -/
theorem greatest_of_findRev? {claim : String × List String}
    (h : overrides.toList.findRev? (scope ∈ ·.2) = some claim) :
    Overriding overrides claim.1 scope ∧
      ∀ other, Overriding overrides other scope → nameBytes other ≤ nameBytes claim.1 := by
  rw [List.findRev?_eq_find?_reverse, List.find?_eq_some_iff_append] at h
  obtain ⟨hmem, later, earlier, hsplit, hfree⟩ := h
  have hback : overrides.toList.reverse.Pairwise fun a b => compare b.1 a.1 = .lt :=
    List.pairwise_reverse.mpr Std.TreeMap.ordered_keys_toList
  rw [hsplit] at hback
  have hlisted : ∀ entry : String × List String,
      overrides[entry.1]? = some entry.2 ↔ entry ∈ later ++ claim :: earlier := by
    intro entry
    rw [← hsplit, List.mem_reverse, ← Std.TreeMap.mem_toList_iff_getElem?_eq_some]
  refine ⟨⟨claim.2, (hlisted claim).mpr (by simp), of_decide_eq_true hmem⟩, ?_⟩
  rintro other ⟨scopes, hscopes, hscope⟩
  obtain hlater | hrest := List.mem_append.mp ((hlisted (other, scopes)).mp hscopes)
  · exact absurd hscope (by simpa using hfree _ hlater)
  · obtain rfl | hearlier := List.mem_cons.mp hrest
    · exact List.le_refl _
    · have hbefore := List.rel_of_pairwise_cons (List.pairwise_append.mp hback).2.1 hearlier
      exact List.le_of_lt (nameBytes_lt_iff.mpr hbefore)

theorem not_overriding_of_findRev? (h : overrides.toList.findRev? (scope ∈ ·.2) = none) :
    ¬Overriding overrides other scope := by
  rintro ⟨scopes, hscopes, hscope⟩
  rw [List.findRev?_eq_find?_reverse, List.find?_eq_none] at h
  have hentry := Std.TreeMap.mem_toList_iff_getElem?_eq_some.mpr hscopes
  exact h _ (List.mem_reverse.mpr hentry) (decide_eq_true hscope)

/-- **Who serves a scope in a table with overrides**: the greatest override to list it, or else a built-in language
that lists it and is not overridden, or else nobody. -/
theorem languages_withOverrides (overrides : Std.TreeMap String (List String)) (scope : String) :
    (∃ language, (withOverrides overrides).languages[scope]? = some language ∧
      Overriding overrides language scope ∧
      ∀ other, Overriding overrides other scope → nameBytes other ≤ nameBytes language) ∨
    (∀ other, ¬Overriding overrides other scope) ∧
      ((∃ language, (withOverrides overrides).languages[scope]? = some language ∧
        BuiltIn language scope ∧ overrides.contains language = false) ∨
      (withOverrides overrides).languages[scope]? = none ∧
        ∀ other, BuiltIn other scope → overrides.contains other = true) := by
  rw [withOverrides_overlays]
  cases hover : overrides.toList.findRev? (scope ∈ ·.2) with
  | some claim => exact .inl ⟨claim.1, rfl, greatest_of_findRev? hover⟩
  | none =>
    refine .inr ⟨fun other => not_overriding_of_findRev? hover, ?_⟩
    rw [Option.none_or, List.findRev?_eq_find?_reverse]
    cases hbuiltin : (remaining overrides).reverse.find? (scope ∈ ·.2) with
    | some claim =>
      obtain ⟨hclaim, hnone⟩ := mem_remaining.mp (List.mem_reverse.mp (List.mem_of_find?_eq_some hbuiltin))
      have hscope := List.find?_some hbuiltin
      exact .inl ⟨claim.1, rfl, ⟨claim.2, hclaim, of_decide_eq_true hscope⟩, hnone⟩
    | none =>
      refine .inr ⟨rfl, ?_⟩
      rintro other ⟨scopes, hclaim, hscope⟩
      by_contra hnot
      have hmem := mem_remaining.mpr ⟨hclaim, Bool.eq_false_iff.mpr hnot⟩
      exact List.find?_eq_none.mp hbuiltin _ (List.mem_reverse.mpr hmem) (decide_eq_true hscope)

theorem languageOf?_of_served (h : t.languages.contains scope = true) :
    t.languageOf? scope = t.languages[scope]? := by
  rw [languageOf?, resolve?, if_pos h]

theorem mem_languageNames : language ∈ (withOverrides overrides).languageNames ↔
    overrides.contains language = true ∨ ∃ scopes, (language, scopes) ∈ builtinScopes := by
  rw [languageNames, Std.TreeMap.mem_keys, Std.TreeMap.mem_iff_contains, Std.TreeMap.contains_eq_isSome_getElem?,
    Option.isSome_iff_exists]
  simp only [scopes_withOverrides, exists_or, ← Option.isSome_iff_exists,
    ← Std.TreeMap.contains_eq_isSome_getElem?, exists_and_right]
  cases overrides.contains language <;> simp

/-- **Overrides win over the built-in table.** In the table with some overrides, a scope is served exactly if an
override lists it, or a built-in language that no override names. It then leads to the greatest of the languages
whose override lists it, in the order of the bytes of their names; if no override lists it, it leads to the one
built-in language that does. An override is the list of its language, every other built-in language keeps its own
list. The languages are those of the overrides and the built-in ones, in order. -/
theorem overrides_win (overrides : Std.TreeMap String (List String)) :
    (∀ scope, (withOverrides overrides).languages.contains scope = true ↔
      (∃ language, Overriding overrides language scope) ∨
      ∃ language, BuiltIn language scope ∧ overrides.contains language = false) ∧
    (∀ scope, (withOverrides overrides).languages.contains scope = true →
      ∃ language, (withOverrides overrides).languageOf? scope = some language ∧
        (Overriding overrides language scope ∧
            (∀ other, Overriding overrides other scope → nameBytes other ≤ nameBytes language) ∨
          (∀ other, ¬Overriding overrides other scope) ∧
            BuiltIn language scope ∧ ∀ other, BuiltIn other scope → other = language)) ∧
    (∀ language scopes, overrides[language]? = some scopes → (withOverrides overrides).scopesOf language = scopes) ∧
    (∀ language scopes, (language, scopes) ∈ builtinScopes → overrides.contains language = false →
      (withOverrides overrides).scopesOf language = scopes) ∧
    (withOverrides overrides).languageNames.Pairwise (fun language other => nameBytes language < nameBytes other) ∧
    ∀ language, language ∈ (withOverrides overrides).languageNames ↔
      overrides.contains language = true ∨ ∃ scopes, (language, scopes) ∈ builtinScopes := by
  refine ⟨fun scope => ?_, fun scope hserved => ?_, fun language scopes hlist => ?_,
    fun language scopes hclaim hnone => ?_, ?_, fun language => mem_languageNames⟩
  · rw [Std.TreeMap.contains_eq_isSome_getElem?]
    obtain ⟨language, hserved, hover, -⟩ | ⟨hfree, ⟨language, hserved, hbuiltin, hnone⟩ | ⟨hserved, hall⟩⟩ :=
      languages_withOverrides overrides scope
    · exact iff_of_true (Option.isSome_of_eq_some hserved) (.inl ⟨language, hover⟩)
    · exact iff_of_true (Option.isSome_of_eq_some hserved) (.inr ⟨language, hbuiltin, hnone⟩)
    · refine iff_of_false (by rw [hserved]; exact Bool.false_ne_true) ?_
      rintro (⟨language, hover⟩ | ⟨language, hbuiltin, hnone⟩)
      · exact hfree language hover
      · exact Bool.false_ne_true (hnone.symm.trans (hall language hbuiltin))
  · rw [languageOf?_of_served hserved]
    obtain ⟨language, hlanguage, hgreatest⟩ | ⟨hfree, ⟨language, hlanguage, hbuiltin, -⟩ | ⟨hnobody, -⟩⟩ :=
      languages_withOverrides overrides scope
    · exact ⟨language, hlanguage, .inl hgreatest⟩
    · exact ⟨language, hlanguage, .inr ⟨hfree, hbuiltin, fun other hother => hother.unique hbuiltin⟩⟩
    · rw [Std.TreeMap.contains_eq_isSome_getElem?, hnobody] at hserved
      cases hserved
  · rw [scopesOf_eq, scopes_withOverrides.mpr (.inl hlist), Option.getD_some]
  · rw [scopesOf_eq, scopes_withOverrides.mpr (.inr ⟨hclaim, hnone⟩), Option.getD_some]
  · have hordered : (withOverrides overrides).scopes.keys.Pairwise (compare · · = .lt) := Std.TreeMap.ordered_keys
    exact hordered.imp nameBytes_lt_iff.mpr

/-- Two overrides list a scope, one of them another scope twice, and a third one lists nothing. The greater of the
two serves the scope that both list, and every list is the one that was given. -/
theorem overrides_win_shared_scope :
    let overrides : Std.TreeMap String (List String) :=
      .ofList [("zython", ["source.python", "source.mjs"]), ("rust", []),
        ("javascript", ["source.js", "source.mjs", "source.js"])]
    let t := withOverrides overrides
    t.languages.contains "source.mjs" = true ∧ t.languageOf? "source.mjs" = some "zython" ∧
    t.scopesOf "rust" = [] ∧ t.scopesOf "javascript" = ["source.js", "source.mjs", "source.js"] ∧
    t.scopesOf "python" = ["source.python"] ∧ "rust" ∈ t.languageNames := by
  intro overrides t
  obtain ⟨hserved, hserves, hlists, hkept, -, hnames⟩ := overrides_win overrides
  have hentries : overrides.toList = [("javascript", ["source.js", "source.mjs", "source.js"]), ("rust", []),
      ("zython", ["source.python", "source.mjs"])] := by
    decide +kernel
  have hzython : Overriding overrides "zython" "source.mjs" :=
    ⟨["source.python", "source.mjs"], by decide +kernel, by decide⟩
  have hmjs : t.languages.contains "source.mjs" = true := (hserved _).mpr (.inl ⟨_, hzython⟩)
  have hlanguage : t.languageOf? "source.mjs" = some "zython" := by
    obtain ⟨language, hlanguage, ⟨⟨scopes, hscopes, hmem⟩, hgreatest⟩ | ⟨hfree, -⟩⟩ := hserves _ hmjs
    · have hentry := Std.TreeMap.mem_toList_iff_getElem?_eq_some.mpr hscopes
      rw [hentries] at hentry
      rw [hlanguage]
      simp only [List.mem_cons, Prod.mk.injEq, List.not_mem_nil, or_false] at hentry
      obtain ⟨rfl, -⟩ | ⟨-, rfl⟩ | ⟨rfl, -⟩ := hentry
      · exact absurd (hgreatest _ hzython) (by decide)
      · cases hmem
      · rfl
    · exact absurd hzython (hfree _)
  exact ⟨hmjs, hlanguage, hlists _ _ (by decide +kernel), hlists _ _ (by decide +kernel),
    hkept _ _ (by decide +kernel) (by decide +kernel), (hnames _).mpr (.inl (by decide +kernel))⟩

end LiveSyntax.ScopeTable
