import LiveSyntax.Language.Scope
import Mathlib.Data.List.Infix

/-!
# The scope that stands for a scope

`ScopeTable.resolve?` looks a scope up, and only if that fails goes through all served scopes for the longest one
that the scope extends by a dot. Both ways answer one question. The scopes that a scope extends are starts of it,
so no two of them are equally long, and the longest one is unique. Hence it does not matter in which order the
served scopes are gone through, nor which of two equally long ones is kept.

## Main definitions

- `ScopeTable.Extends`: a scope is another one, or goes on after it with a dot.
- `ScopeTable.StandsFor`: a served scope is the longest one that a scope extends.
- `ScopeTable.resolveAmong`: resolution with the served scopes in any order.

## Main results

- `ScopeTable.Extends.eq_of_size`: a scope extends no more than one scope of each length.
- `ScopeTable.resolve?_eq_some_iff`: resolution finds the scope that stands for a scope.
- `ScopeTable.resolve_longest_prefix`: what resolution answers, in any order, for longer scopes too.
-/

namespace LiveSyntax.ScopeTable

variable {t : ScopeTable} {scope shorter other : String} {scopes order : List String}

/-- A scope is another one, or that one followed by a dot and anything else. -/
def Extends (scope shorter : String) : Prop :=
  shorter = scope ∨ ∃ rest, scope = shorter ++ "." ++ rest

theorem extendsByDot_iff : extendsByDot scope shorter = true ↔ ∃ rest, scope = shorter ++ "." ++ rest := by
  rw [extendsByDot, List.isPrefixOf_iff_prefix]
  constructor
  · rintro ⟨rest, hrest⟩
    refine ⟨String.ofList rest, String.toList_inj.mp ?_⟩
    rw [← hrest]
    simp
  · rintro ⟨rest, rfl⟩
    exact ⟨rest.toList, by simp⟩

theorem Extends.exists_eq_append (h : Extends scope shorter) : ∃ rest, scope = shorter ++ rest := by
  obtain rfl | ⟨rest, rfl⟩ := h
  · exact ⟨"", String.append_empty.symm⟩
  · exact ⟨"." ++ rest, String.append_assoc⟩

theorem Extends.trans_dot (h : Extends scope shorter) (rest : String) :
    Extends (scope ++ "." ++ rest) shorter := by
  right
  obtain rfl | ⟨middle, rfl⟩ := h
  · exact ⟨rest, rfl⟩
  · exact ⟨middle ++ "." ++ rest, by simp only [String.append_assoc]⟩

/-- **A scope extends no more than one scope of each length**, since all of them are starts of it. -/
theorem Extends.eq_of_size (h : Extends scope shorter) (h' : Extends scope other)
    (hsize : shorter.utf8ByteSize = other.utf8ByteSize) : shorter = other := by
  obtain ⟨rest, rfl⟩ := h.exists_eq_append
  obtain ⟨rest', heq⟩ := h'.exists_eq_append
  have hlists : shorter.toList ++ rest.toList = other.toList ++ rest'.toList := by
    rw [← String.toList_append, heq, String.toList_append]
  -- Of two starts of one list the shorter one starts the other, and here nothing is left over.
  have hstart : ∀ {s u : String}, s.toList <+: u.toList → s.utf8ByteSize = u.utf8ByteSize → s = u := by
    rintro s u ⟨more, hmore⟩ hsame
    have hu : u = s ++ String.ofList more := String.toList_inj.mp (by simp [hmore])
    rw [hu, String.utf8ByteSize_append] at hsame
    have hnone : String.ofList more = "" := String.utf8ByteSize_eq_zero_iff.mp (by omega)
    rw [hu, hnone, String.append_empty]
  obtain hpre | hpre := List.prefix_or_prefix_of_prefix ⟨_, hlists⟩ (List.prefix_append _ _)
  · exact hstart hpre hsize
  · exact (hstart hpre hsize.symm).symm

/-! ### The longest of some scopes -/

/-- A scope is one of some scopes, and none of them is longer. -/
def Longest (scopes : List String) (scope : String) : Prop :=
  scope ∈ scopes ∧ ∀ other ∈ scopes, other.utf8ByteSize ≤ scope.utf8ByteSize

theorem longest_singleton (scope : String) : Longest [scope] scope :=
  ⟨List.mem_singleton_self scope, fun _ hother => Nat.le_of_eq (by rw [List.mem_singleton.mp hother])⟩

theorem Longest.longer {best : String} (h : Longest scopes best) (next : String) :
    ∃ kept, longer (some best) next = some kept ∧ Longest (scopes ++ [next]) kept := by
  obtain ⟨hmem, hmax⟩ := h
  rw [ScopeTable.longer]
  split
  · next hle =>
    refine ⟨next, rfl, by simp, fun other hother => ?_⟩
    obtain hold | hnew := List.mem_append.mp hother
    · exact Nat.le_trans (hmax other hold) hle
    · exact Nat.le_of_eq (by rw [List.mem_singleton.mp hnew])
  · next hgt =>
    refine ⟨best, rfl, List.mem_append_left _ hmem, fun other hother => ?_⟩
    obtain hold | hnew := List.mem_append.mp hother
    · exact hmax other hold
    · rw [List.mem_singleton.mp hnew]
      omega

theorem Longest.foldl_longer {best : String} (h : Longest scopes best) (more : List String) :
    ∃ kept, more.foldl ScopeTable.longer (some best) = some kept ∧ Longest (scopes ++ more) kept := by
  induction more generalizing scopes best with
  | nil => exact ⟨best, rfl, by rwa [List.append_nil]⟩
  | cons next more ih =>
    obtain ⟨kept, hkept, hlongest⟩ := h.longer next
    rw [List.foldl_cons, hkept, List.append_cons]
    exact ih hlongest

theorem foldl_longer_eq_none_iff : scopes.foldl longer none = none ↔ scopes = [] := by
  cases scopes with
  | nil => exact iff_of_true rfl rfl
  | cons first rest =>
    obtain ⟨kept, hkept, -⟩ := (longest_singleton first).foldl_longer rest
    refine iff_of_false (fun hnone => ?_) (List.cons_ne_nil _ _)
    cases hkept.symm.trans hnone

theorem longest_of_foldl_longer (h : scopes.foldl longer none = some scope) : Longest scopes scope := by
  cases scopes with
  | nil => cases h
  | cons first rest =>
    obtain ⟨kept, hkept, hlongest⟩ := (longest_singleton first).foldl_longer rest
    obtain rfl : kept = scope := Option.some.inj (hkept.symm.trans h)
    exact hlongest

/-! ### Resolution -/

/-- A scope is served and a scope extends it, and it extends no longer one that is served. -/
structure StandsFor (t : ScopeTable) (scope shorter : String) : Prop where
  served : t.languages.contains shorter = true
  extended : Extends scope shorter
  longest : ∀ other, t.languages.contains other = true → Extends scope other →
    other.utf8ByteSize ≤ shorter.utf8ByteSize

theorem StandsFor.unique (h : t.StandsFor scope shorter) (h' : t.StandsFor scope other) : shorter = other :=
  h.extended.eq_of_size h'.extended
    (Nat.le_antisymm (h'.longest _ h.served h.extended) (h.longest _ h'.served h'.extended))

/-- A scope that is served stands for itself. -/
theorem standsFor_self (h : t.languages.contains scope = true) : t.StandsFor scope scope := by
  refine ⟨h, .inl rfl, fun other _ hextends => ?_⟩
  obtain ⟨rest, hrest⟩ := hextends.exists_eq_append
  rw [hrest, String.utf8ByteSize_append]
  exact Nat.le_add_right _ _

/-- Resolution that goes through the served scopes in some order. -/
def resolveAmong (order : List String) (scope : String) : Option String :=
  if scope ∈ order then some scope else (order.filter (extendsByDot scope)).foldl longer none

/-- **What resolution finds**, in any order: the scope that stands for a scope, if it extends one at all. -/
theorem resolveAmong_spec (horder : ∀ other, other ∈ order ↔ t.languages.contains other = true)
    (scope : String) :
    (∀ shorter, resolveAmong order scope = some shorter → t.StandsFor scope shorter) ∧
    (resolveAmong order scope = none → ∀ other, t.languages.contains other = true → ¬Extends scope other) := by
  have hmem : ∀ other, other ∈ order.filter (extendsByDot scope) ↔
      t.languages.contains other = true ∧ ∃ rest, scope = other ++ "." ++ rest := by
    intro other
    rw [List.mem_filter, horder, extendsByDot_iff]
  by_cases hserved : scope ∈ order
  · rw [resolveAmong, if_pos hserved]
    refine ⟨fun shorter hsome => ?_, fun hnone => by cases hnone⟩
    exact Option.some.inj hsome ▸ standsFor_self ((horder scope).mp hserved)
  · rw [resolveAmong, if_neg hserved]
    -- The scope itself is not served, so all that it extends is found by the dot.
    have hdot : ∀ other, t.languages.contains other = true → Extends scope other →
        other ∈ order.filter (extendsByDot scope) := by
      rintro other hother (rfl | hrest)
      · exact absurd ((horder other).mpr hother) hserved
      · exact (hmem other).mpr ⟨hother, hrest⟩
    constructor
    · intro shorter hfound
      obtain ⟨hin, hmax⟩ := longest_of_foldl_longer hfound
      obtain ⟨hshorter, hrest⟩ := (hmem shorter).mp hin
      exact ⟨hshorter, .inr hrest, fun other hother hextends => hmax other (hdot other hother hextends)⟩
    · intro hnone other hother hextends
      have hin := hdot other hother hextends
      rw [foldl_longer_eq_none_iff.mp hnone] at hin
      cases hin

theorem resolveAmong_eq_some_iff (horder : ∀ other, other ∈ order ↔ t.languages.contains other = true) :
    resolveAmong order scope = some shorter ↔ t.StandsFor scope shorter := by
  obtain ⟨hsound, hnone⟩ := resolveAmong_spec horder scope
  refine ⟨hsound shorter, fun h => ?_⟩
  cases hresolved : resolveAmong order scope with
  | none => exact absurd h.extended (hnone hresolved shorter h.served)
  | some found => rw [(hsound found hresolved).unique h]

theorem mem_keys_iff (t : ScopeTable) (scope : String) :
    scope ∈ t.languages.keys ↔ t.languages.contains scope = true := by
  rw [Std.TreeMap.mem_keys, Std.TreeMap.mem_iff_contains]

theorem resolve?_eq_resolveAmong (t : ScopeTable) (scope : String) :
    t.resolve? scope = resolveAmong t.languages.keys scope := by
  simp only [resolve?, resolveAmong, mem_keys_iff]

theorem resolve?_eq_some_iff : t.resolve? scope = some shorter ↔ t.StandsFor scope shorter := by
  rw [resolve?_eq_resolveAmong]
  exact resolveAmong_eq_some_iff t.mem_keys_iff

theorem resolve?_eq_none_iff :
    t.resolve? scope = none ↔ ∀ other, t.languages.contains other = true → ¬Extends scope other := by
  rw [resolve?_eq_resolveAmong]
  refine ⟨(resolveAmong_spec t.mem_keys_iff scope).2, fun hnone => ?_⟩
  cases hresolved : resolveAmong t.languages.keys scope with
  | none => rfl
  | some found =>
    have hfound := (resolveAmong_spec t.mem_keys_iff scope).1 found hresolved
    exact absurd hfound.extended (hnone found hfound.served)

/-- **Resolution finds the longest dotted start.** A scope leads to a scope exactly if that one is served, is the
scope itself or is followed by a dot in it, and no longer served scope is so; it leads nowhere exactly if no served
scope is so. It does not matter in which order the served scopes are gone through. What a scope leads to leads to
itself. A scope that goes on with a dot after one that leads somewhere leads to a scope that is at least as long. -/
theorem resolve_longest_prefix (t : ScopeTable) (scope : String) :
    (∀ shorter, t.resolve? scope = some shorter ↔
      t.languages.contains shorter = true ∧ Extends scope shorter ∧
      ∀ other, t.languages.contains other = true → Extends scope other →
        ¬shorter.utf8ByteSize < other.utf8ByteSize) ∧
    (t.resolve? scope = none ↔ ∀ other, t.languages.contains other = true → ¬Extends scope other) ∧
    (∀ order : List String, order.Perm t.languages.keys → resolveAmong order scope = t.resolve? scope) ∧
    (t.resolve? scope).bind t.resolve? = t.resolve? scope ∧
    ∀ shorter, t.resolve? scope = some shorter → ∀ rest, ∃ found,
      t.resolve? (scope ++ "." ++ rest) = some found ∧ shorter.utf8ByteSize ≤ found.utf8ByteSize := by
  refine ⟨fun shorter => ?_, resolve?_eq_none_iff, fun order hperm => ?_, ?_, fun shorter hshorter rest => ?_⟩
  · rw [resolve?_eq_some_iff]
    constructor
    · intro h
      exact ⟨h.served, h.extended, fun other hother hextends => Nat.not_lt.mpr (h.longest other hother hextends)⟩
    · rintro ⟨hserved, hextended, hlongest⟩
      exact ⟨hserved, hextended, fun other hother hextends => Nat.not_lt.mp (hlongest other hother hextends)⟩
  · have horder : ∀ other, other ∈ order ↔ t.languages.contains other = true :=
      fun other => hperm.mem_iff.trans (t.mem_keys_iff other)
    refine Option.ext fun shorter => ?_
    rw [resolveAmong_eq_some_iff horder, resolve?_eq_some_iff]
  · cases hresolved : t.resolve? scope with
    | none => rfl
    | some found =>
      have hserved := (resolve?_eq_some_iff.mp hresolved).served
      exact resolve?_eq_some_iff.mpr (standsFor_self hserved)
  · obtain ⟨hserved, hextended, -⟩ := resolve?_eq_some_iff.mp hshorter
    have hlonger := hextended.trans_dot rest
    cases hfound : t.resolve? (scope ++ "." ++ rest) with
    | none => exact absurd hlonger (resolve?_eq_none_iff.mp hfound shorter hserved)
    | some found => exact ⟨found, rfl, (resolve?_eq_some_iff.mp hfound).longest shorter hserved hlonger⟩

/-- Three scopes that extend one another, the empty one among them. They are gone through from the longest to the
shortest and the other way round, and a scope that starts with a dot extends the empty one. -/
theorem resolve_longest_prefix_three_nested :
    let t := empty.insertAll [("html", ["text.html", ""]), ("vue", ["text.html.vue"])]
    t.resolve? "text.html.vue.inner" = some "text.html.vue" ∧
    resolveAmong ["text.html.vue", "text.html", ""] "text.html.vue.inner" = some "text.html.vue" ∧
    resolveAmong ["", "text.html", "text.html.vue"] "text.html.vue.inner" = some "text.html.vue" ∧
    (∃ found, t.resolve? "text.html.vue.inner.script" = some found ∧
      "text.html.vue".utf8ByteSize ≤ found.utf8ByteSize) ∧
    t.resolve? "text.html.vue" = some "text.html.vue" ∧ t.resolve? "text.htmlx" = none ∧
    t.resolve? ".html" = some "" := by
  intro t
  have hvue : t.resolve? "text.html.vue.inner" = some "text.html.vue" := by decide +kernel
  have hothers : t.resolve? "text.htmlx" = none ∧ t.resolve? ".html" = some "" := by decide +kernel
  obtain ⟨-, -, horder, hagain, hlonger⟩ := resolve_longest_prefix t "text.html.vue.inner"
  rw [hvue] at hagain horder
  exact ⟨hvue, horder _ (by decide +kernel), horder _ (by decide +kernel), hlonger _ hvue "script", hagain,
    hothers⟩

end LiveSyntax.ScopeTable
