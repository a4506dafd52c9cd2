import LiveSyntax.Outline.Capture
import LiveSyntax.Proofs.CoveringNodes
import LiveSyntax.Proofs.Navigation
import LiveSyntax.Proofs.ParseWalk
import LiveSyntax.Proofs.SymbolLists
import Mathlib.Data.List.Forall2
import Mathlib.Logic.Relation

/-!
# Symbols of a query

The captures of a query come match by match and once for every node that is searched, so that one symbol may be captured
many times. `Definition.collect` goes over them in passes: the breadcrumbs are read first, then a definition is made of
every capture that is one, repeats are dropped, the rest is sorted, and only then every symbol is given its container.
Here the outcome is said without passes. `Definition.Makes` says which definition a capture makes, and
`Definition.Encloses` which of the definitions that are left is the container of a scope.

A parser tree may have any number of nodes here. The links of its table agree even where it is too large for a syntax
tree.

## Main definitions

- `Arena.Above`: proper ancestors.
- `Definition.HasScope`, `Definition.Makes`: the scope of a captured node, and the definition it makes.
- `Definition.Keeps`: one definition for every key, made by the first capture that makes one.
- `Definition.Encloses`: the container.

## Main results

- `ParseTree.linked_arena`: the links of the table of any parser tree agree.
- `Definition.container?_eq_some_iff`: the climb to the nearest scope.
- `Definition.collect_append_self`: captures that come twice count once.
- `CaptureQuery.runWithin_unique_nested`: the symbols of a query.
-/

namespace LiveSyntax

/-! ### The table of a parser tree -/

namespace OrderedTree

mutual

/-- The events of a tree keep the links, whether or not the table has room for it, and what was open stays open. -/
theorem linked_events {b : Builder} (tree : OrderedTree NodeSpec) (h : b.Linked)
    (hplace : b.opened ≠ [] ∨ b.nodes = []) :
    (tree.events.foldl Builder.step b).Linked ∧ (tree.events.foldl Builder.step b).opened = b.opened := by
  match tree with
  | .node spec children =>
    obtain ⟨hlinked, hopened⟩ := linked_eventsAll children (h.enter spec hplace) (b.opened_enter spec)
    have hclosed := congrArg Builder.opened (Builder.leave_eq hopened)
    rw [events, List.foldl_cons, List.foldl_append]
    exact ⟨hlinked.leave hopened, hclosed⟩

theorem linked_eventsAll {b : Builder} {parent : Nat} {outer : List Nat} (trees : List (OrderedTree NodeSpec))
    (h : b.Linked) (hopened : b.opened = parent :: outer) :
    ((eventsAll trees).foldl Builder.step b).Linked ∧
      ((eventsAll trees).foldl Builder.step b).opened = parent :: outer := by
  match trees with
  | [] => exact ⟨h, hopened⟩
  | tree :: rest =>
    obtain ⟨hlinked, hsame⟩ := linked_events tree h (.inl (by simp [hopened]))
    rw [eventsAll, List.foldl_append]
    exact linked_eventsAll rest hlinked (hsame.trans hopened)

end

end OrderedTree

/-- **The links of the table of any parser tree agree**, also if it is too large for a syntax tree. -/
theorem ParseTree.linked_arena (raw : ParseTree) : raw.arena.Linked := by
  have hempty : (Builder.start []).nodes = [] := Builder.nodes_eq_map _
  obtain ⟨hlinked, hopened⟩ := raw.described.linked_events (Builder.linked_start []) (.inr hempty)
  rw [← raw.walk_eq_events] at hlinked hopened
  have hreach : (raw.walk.foldl Builder.step (Builder.start [])).reach = raw.arena.subtreeEnd := by
    funext i
    rw [Builder.reach, hopened]
    exact if_neg List.not_mem_nil
  rw [Arena.Linked, ← hreach]
  exact hlinked.links

namespace Arena

variable {t : Arena} {i a : Nat} {before after : List Nat}

/-- One node is a proper ancestor of another: it is one or more parents up. -/
def Above (t : Arena) (upper lower : Nat) : Prop :=
  Relation.TransGen (fun i p => t.parent? i = some p) lower upper

theorem lt_size_of_parent? (hparent : t.parent? i = some a) : i < t.size := by
  by_contra hge
  have hnone : t.cells[i]? = none := Array.getElem?_eq_none (Nat.le_of_not_lt hge)
  rw [parent?, node, hnone] at hparent
  cases hparent

theorem ancestors_eq_nil (hnone : t.parent? i = none) : t.ancestors i = [] := by
  rw [ancestors]
  cases t.size with
  | zero => rfl
  | succ n => rw [ancestorsUpTo, hnone]

theorem Linked.ancestors_eq_cons_iff (h : t.Linked) :
    t.ancestors i = a :: after ↔ t.parent? i = some a ∧ after = t.ancestors a := by
  cases hparent : t.parent? i with
  | none => simp [ancestors_eq_nil hparent]
  | some p =>
    rw [h.ancestors_eq_cons (lt_size_of_parent? hparent) hparent, List.cons.injEq, Option.some.injEq]
    constructor
    · rintro ⟨rfl, rfl⟩
      exact ⟨rfl, rfl⟩
    · rintro ⟨rfl, rfl⟩
      exact ⟨rfl, rfl⟩

theorem Linked.lt_of_above (h : t.Linked) (habove : t.Above a i) : a < i := by
  induction habove with
  | single hparent => exact h.parent_lt (lt_size_of_parent? hparent) hparent
  | tail _ hparent ih => exact Nat.lt_trans (h.parent_lt (lt_size_of_parent? hparent) hparent) ih

/-- Climbing meets the proper ancestors, and after each of them those that are above it. -/
theorem Linked.above_iff_of_ancestors (h : t.Linked) (hclimb : t.ancestors i = before) :
    t.Above a i ↔ a ∈ before := by
  induction before generalizing i with
  | nil =>
    refine iff_of_false (fun habove => ?_) List.not_mem_nil
    obtain ⟨p, hparent, -⟩ := Relation.TransGen.head'_iff.mp habove
    rw [h.ancestors_eq_cons (lt_size_of_parent? hparent) hparent] at hclimb
    cases hclimb
  | cons p after ih =>
    obtain ⟨hparent, hafter⟩ := h.ancestors_eq_cons_iff.mp hclimb
    rw [List.mem_cons, ← ih hafter.symm]
    constructor
    · intro habove
      obtain ⟨q, hq, hway⟩ := Relation.TransGen.head'_iff.mp habove
      obtain rfl : p = q := Option.some.inj (hparent.symm.trans hq)
      exact Relation.reflTransGen_iff_eq_or_transGen.mp hway
    · rintro (rfl | habove)
      · exact .single hparent
      · exact .head hparent habove

theorem Linked.ancestors_of_append (h : t.Linked) (hclimb : t.ancestors i = before ++ a :: after) :
    after = t.ancestors a := by
  induction before generalizing i with
  | nil => exact (h.ancestors_eq_cons_iff.mp hclimb).2
  | cons p before ih => exact ih (h.ancestors_eq_cons_iff.mp hclimb).2.symm

end Arena

/-! ### Names -/

namespace Text

/-- A text is made of words with one space between them. -/
def IsSingleSpaced (text : Text) : Prop :=
  ∃ words : List Text, (∀ word ∈ words, word ≠ [] ∧ ∀ c ∈ word, isBlank c = false) ∧
    text = List.intercalate [' '] words

theorem solid_of_mem_words (text : Text) : ∀ word ∈ text.words, word ≠ [] ∧ ∀ c ∈ word, isBlank c = false := by
  induction text with
  | nil => simp [words]
  | cons c rest ih =>
    rw [words.eq_def]
    by_cases hblank : isBlank c = true
    · simpa only [if_pos hblank] using ih
    · simp only [if_neg hblank]
      split
      · next word others hwords =>
        rw [hwords, List.forall_mem_cons] at ih
        split
        · simpa [hblank] using ih
        · simpa [hblank] using And.intro ih.1.2 ih.2
      · simpa [hblank] using ih

theorem isSingleSpaced_singleSpaced (text : Text) : text.singleSpaced.IsSingleSpaced :=
  ⟨text.words, text.solid_of_mem_words, rfl⟩

end Text

namespace Definition

variable {t : Arena} {source name : Text} {captured : List Captured} {entry : Captured}
  {definitions : List Definition} {d e : Definition} {seen : List (Span × Span × SymbolKind)} {i scope levels : Nat}

/-! ### Scopes -/

/-- The scope of a captured node. The last breadcrumb on it says how far up it is, but it is never beyond the root.
Without one it is the node, or the parent whose `name` child the node is. -/
inductive HasScope (t : Arena) (captured : List Captured) (i : Nat) : Nat → Prop where
  | climbed {before after : List Captured} {levels steps scope : Nat}
      (hcut : captured = before ++ (.breadcrumb levels, i) :: after) (hlast : ∀ n, (.breadcrumb n, i) ∉ after)
      (hway : t.ancestor? i steps = some scope)
      (hsteps : steps = levels ∨ steps < levels ∧ t.parent? scope = none) : HasScope t captured i scope
  | named {p : Nat} (hnone : ∀ n, (.breadcrumb n, i) ∉ captured) (hparent : t.parent? i = some p)
      (hname : t.childByField? p nameField = some i) : HasScope t captured i p
  | plain (hnone : ∀ n, (.breadcrumb n, i) ∉ captured)
      (hname : ∀ p, t.parent? i = some p → t.childByField? p nameField ≠ some i) : HasScope t captured i i

theorem breadcrumb?_concat (captured : List Captured) (role : CaptureRole) (i j : Nat) :
    breadcrumb? (captured ++ [(role, j)]) i =
      match role with
      | .breadcrumb levels => if j = i then some levels else breadcrumb? captured i
      | _ => breadcrumb? captured i := by
  rw [breadcrumb?, List.foldl_append]
  cases role <;> rfl

/-- Later breadcrumbs win over earlier ones. -/
theorem breadcrumb?_append (before after : List Captured) (i : Nat) :
    breadcrumb? (before ++ after) i = (breadcrumb? after i).or (breadcrumb? before i) := by
  induction after using List.reverseRecOn with
  | nil => rw [List.append_nil]; rfl
  | append_singleton after entry ih =>
    obtain ⟨role, j⟩ := entry
    rw [← List.append_assoc, breadcrumb?_concat, breadcrumb?_concat, ih]
    cases role with
    | breadcrumb levels => by_cases hj : j = i <;> simp [hj]
    | definition => rfl
    | other => rfl

theorem not_mem_of_breadcrumb? (hnone : breadcrumb? captured i = none) (n : Nat) :
    (.breadcrumb n, i) ∉ captured := by
  intro hmem
  obtain ⟨before, after, rfl⟩ := List.append_of_mem hmem
  rw [List.append_cons, breadcrumb?_append, breadcrumb?_concat] at hnone
  simp at hnone

theorem exists_of_breadcrumb? (hsome : breadcrumb? captured i = some levels) :
    ∃ before after, captured = before ++ (.breadcrumb levels, i) :: after ∧ ∀ n, (.breadcrumb n, i) ∉ after := by
  induction captured using List.reverseRecOn with
  | nil => cases hsome
  | append_singleton captured entry ih =>
    obtain ⟨role, j⟩ := entry
    rw [breadcrumb?_concat] at hsome
    by_cases hlast : ∃ n, (role, j) = (.breadcrumb n, i)
    · obtain ⟨n, hentry⟩ := hlast
      cases hentry
      simp only [if_pos] at hsome
      cases hsome
      exact ⟨captured, [], rfl, fun _ => List.not_mem_nil⟩
    · have hbefore : breadcrumb? captured i = some levels := by
        cases role with
        | breadcrumb n =>
          have hj : j ≠ i := fun hj => hlast ⟨n, by rw [hj]⟩
          simpa [hj] using hsome
        | definition => exact hsome
        | other => exact hsome
      obtain ⟨before, after, rfl, hafter⟩ := ih hbefore
      refine ⟨before, after ++ [(role, j)], by rw [List.append_assoc, List.cons_append], fun n hmem => ?_⟩
      obtain hmem | hmem := List.mem_append.mp hmem
      · exact hafter n hmem
      · exact hlast ⟨n, (List.mem_singleton.mp hmem).symm⟩

theorem exists_steps_climb (t : Arena) (i levels : Nat) :
    ∃ steps, t.ancestor? i steps = some (climb t i levels) ∧
      (steps = levels ∨ steps < levels ∧ t.parent? (climb t i levels) = none) := by
  induction levels generalizing i with
  | zero => exact ⟨0, rfl, .inl rfl⟩
  | succ levels ih =>
    rw [climb]
    cases hparent : t.parent? i with
    | none => exact ⟨0, rfl, .inr ⟨Nat.zero_lt_succ levels, hparent⟩⟩
    | some p =>
      obtain ⟨steps, hway, hsteps⟩ := ih p
      refine ⟨steps + 1, by rw [Arena.ancestor?, hparent]; exact hway, ?_⟩
      exact hsteps.imp (congrArg Nat.succ) (And.imp_left Nat.succ_lt_succ)

theorem hasScope_scopeOf (t : Arena) (captured : List Captured) (i : Nat) :
    HasScope t captured i (scopeOf t i (breadcrumb? captured i)) := by
  cases hmark : breadcrumb? captured i with
  | some levels =>
    obtain ⟨before, after, hcut, hlast⟩ := exists_of_breadcrumb? hmark
    obtain ⟨steps, hway, hsteps⟩ := exists_steps_climb t i levels
    exact .climbed hcut hlast hway hsteps
  | none =>
    have hnone := not_mem_of_breadcrumb? hmark
    rw [scopeOf]
    cases hparent : t.parent? i with
    | none => exact .plain hnone fun p hp => by rw [hparent] at hp; cases hp
    | some p =>
      by_cases hname : t.childByField? p nameField = some i
      · simp only [if_pos hname]
        exact .named hnone hparent hname
      · simp only [if_neg hname]
        refine .plain hnone fun q hq => ?_
        obtain rfl : p = q := Option.some.inj (hparent.symm.trans hq)
        exact hname

/-! ### Definitions made by captures -/

/-- A capture makes a definition: it captures a definition of this kind, and the text of the `name` child of its
node, or of the node if there is no such child, is not blank. -/
structure Makes (t : Arena) (source : Text) (captured : List Captured) (entry : Captured) (d : Definition) : Prop where
  role : entry.1 = .definition d.symbol.kind
  span : d.symbol.span = t.span entry.2
  nameSpan : d.symbol.nameSpan = t.span ((t.childByField? entry.2 nameField).getD entry.2)
  name : d.symbol.name = ((source.slice? d.symbol.nameSpan.start d.symbol.nameSpan.stop).getD []).singleSpaced
  nonblank : d.symbol.name ≠ []
  container : d.symbol.container = none
  scope : HasScope t captured entry.2 d.scope

/-- The definition of one capture. -/
def ofCapture? (t : Arena) (source : Text) (captured : List Captured) (entry : Captured) : Option Definition :=
  match entry with
  | (.definition kind, i) => ofNode? t source captured i kind
  | _ => none

theorem ofCaptures_eq (t : Arena) (source : Text) (captured : List Captured) :
    ofCaptures t source captured = captured.filterMap (ofCapture? t source captured) :=
  rfl

theorem makes_of_ofCapture? (h : ofCapture? t source captured entry = some d) : Makes t source captured entry d := by
  obtain ⟨role, i⟩ := entry
  cases role with
  | definition kind =>
    simp only [ofCapture?, ofNode?, Option.ite_none_left_eq_some, Option.some.injEq] at h
    obtain ⟨hname, rfl⟩ := h
    exact ⟨rfl, rfl, rfl, rfl, fun hblank => hname (List.isEmpty_iff.mpr hblank), rfl, hasScope_scopeOf t captured i⟩
  | breadcrumb => cases h
  | other => cases h

theorem Makes.exists_ofCapture? (h : Makes t source captured entry d) :
    ∃ e, ofCapture? t source captured entry = some e ∧ e.key = d.key := by
  obtain ⟨role, i⟩ := entry
  have hname := h.nonblank
  rw [h.name, h.nameSpan] at hname
  cases h.role
  refine ⟨_, if_neg fun hblank => hname (List.isEmpty_iff.mp hblank), ?_⟩
  simp only [key, h.span, h.nameSpan]

/-! ### Repeats -/

/-- What is left is the first of each key. -/
theorem mem_dropRepeats : d ∈ dropRepeats seen definitions ↔
    d.key ∉ seen ∧ definitions.find? (fun e => decide (e.key = d.key)) = some d := by
  induction definitions generalizing seen with
  | nil => simp [dropRepeats]
  | cons c rest ih =>
    by_cases hsame : c.key = d.key
    · by_cases hseen : d.key ∈ seen
      · simp [dropRepeats, ih, hsame, hseen]
      · by_cases hfirst : d = c <;> simp [dropRepeats, ih, hsame, hseen, hfirst, eq_comm]
    · have hother : d ≠ c := fun heq => hsame (by rw [heq])
      by_cases hseen : c.key ∈ seen <;> simp [dropRepeats, ih, hsame, hseen, hother, Ne.symm hsame]

theorem pairwise_dropRepeats (seen : List (Span × Span × SymbolKind)) (definitions : List Definition) :
    (dropRepeats seen definitions).Pairwise fun d e => d.key ≠ e.key := by
  induction definitions generalizing seen with
  | nil => exact .nil
  | cons c rest ih =>
    rw [dropRepeats]
    split
    · exact ih seen
    · refine .cons (fun e he hsame => ?_) (ih (c.key :: seen))
      exact (mem_dropRepeats.mp he).1 (by rw [← hsame]; exact List.mem_cons_self)

/-- Definitions whose keys came before add nothing. -/
theorem dropRepeats_append {more : List Definition}
    (hmore : ∀ d ∈ more, d.key ∈ seen ∨ ∃ e ∈ definitions, e.key = d.key) :
    dropRepeats seen (definitions ++ more) = dropRepeats seen definitions := by
  induction definitions generalizing seen with
  | nil =>
    refine List.eq_nil_iff_forall_not_mem.mpr fun d hd => ?_
    obtain ⟨hseen, hfind⟩ := mem_dropRepeats.mp hd
    simpa [hseen] using hmore d (List.mem_of_find?_eq_some hfind)
  | cons c rest ih =>
    have hlater : ∀ {now : List (Span × Span × SymbolKind)}, seen ⊆ now → c.key ∈ now →
        ∀ d ∈ more, d.key ∈ now ∨ ∃ e ∈ rest, e.key = d.key := by
      intro now hseen hc d hd
      obtain hold | ⟨e, he, hsame⟩ := hmore d hd
      · exact .inl (hseen hold)
      · obtain rfl | he := List.mem_cons.mp he
        · exact .inl (hsame ▸ hc)
        · exact .inr ⟨e, he, hsame⟩
    rw [List.cons_append, dropRepeats, dropRepeats]
    split
    · next hseen => rw [ih (hlater (List.Subset.refl seen) (List.contains_iff_mem.mp hseen))]
    · rw [ih (hlater (List.subset_cons_self _ _) List.mem_cons_self)]

/-- **Captures that come twice count once.** -/
theorem collect_append_self (t : Arena) (source : Text) (captured : List Captured) :
    collect t source (captured ++ captured) = collect t source captured := by
  -- The breadcrumbs are the same, so every capture makes the same definition again.
  have hmade : ofCapture? t source (captured ++ captured) = ofCapture? t source captured := by
    funext entry
    unfold ofCapture? ofNode?
    simp only [breadcrumb?_append, Option.or_self]
  have hcaptures : ofCaptures t source (captured ++ captured) =
      ofCaptures t source captured ++ ofCaptures t source captured := by
    rw [ofCaptures_eq, hmade, List.filterMap_append, ofCaptures_eq]
  have hkept : dropRepeats [] (ofCaptures t source captured ++ ofCaptures t source captured) =
      dropRepeats [] (ofCaptures t source captured) :=
    dropRepeats_append fun d hd => .inr ⟨d, hd, rfl⟩
  rw [collect, hcaptures, hkept]
  rfl

/-- The definitions that are left of a list of captures: each is made by the first capture that makes one with its key,
and there is one for every key. -/
structure Keeps (t : Arena) (source : Text) (captured : List Captured) (definitions : List Definition) : Prop where
  made : ∀ d ∈ definitions, ∃ before entry after, captured = before ++ entry :: after ∧
    Makes t source captured entry d ∧
    ∀ earlier ∈ before, ∀ e, Makes t source captured earlier e → e.key ≠ d.key
  complete : ∀ entry ∈ captured, ∀ d, Makes t source captured entry d → ∃ e ∈ definitions, e.key = d.key

/-- The definitions of a list of captures, without repeats and in order. -/
def kept (t : Arena) (source : Text) (captured : List Captured) : List Definition :=
  sorted (dropRepeats [] (ofCaptures t source captured))

theorem mem_kept : d ∈ kept t source captured ↔
    (ofCaptures t source captured).find? (fun e => decide (e.key = d.key)) = some d := by
  rw [kept, sorted, List.mem_mergeSort, mem_dropRepeats]
  simp

theorem keeps_kept (t : Arena) (source : Text) (captured : List Captured) :
    Keeps t source captured (kept t source captured) where
  made d hd := by
    rw [mem_kept, ofCaptures_eq, List.find?_filterMap, Option.bind_eq_some_iff] at hd
    obtain ⟨entry, hfind, hmade⟩ := hd
    obtain ⟨-, before, after, hcut, hbefore⟩ := List.find?_eq_some_iff_append.mp hfind
    refine ⟨before, entry, after, hcut, makes_of_ofCapture? hmade, fun earlier hearlier e hmakes hsame => ?_⟩
    obtain ⟨twin, htwin, hkey⟩ := hmakes.exists_ofCapture?
    simpa [htwin, hkey, hsame] using hbefore earlier hearlier
  complete entry hentry d hmakes := by
    obtain ⟨twin, htwin, hkey⟩ := hmakes.exists_ofCapture?
    have hmem : twin ∈ ofCaptures t source captured := by
      rw [ofCaptures_eq]
      exact List.mem_filterMap.mpr ⟨entry, hentry, htwin⟩
    have hsome : ((ofCaptures t source captured).find? fun e => decide (e.key = d.key)).isSome :=
      List.find?_isSome.mpr ⟨twin, hmem, decide_eq_true hkey⟩
    obtain ⟨e, he⟩ := Option.isSome_iff_exists.mp hsome
    have hsame : e.key = d.key := by simpa using List.find?_some he
    exact ⟨e, mem_kept.mpr (by rw [hsame]; exact he), hsame⟩

theorem pairwise_start_kept (t : Arena) (source : Text) (captured : List Captured) :
    (kept t source captured).Pairwise fun d e => d.symbol.span.start ≤ e.symbol.span.start := by
  refine (List.pairwise_mergeSort (fun a b c hab hbc => ?_) (fun a b => ?_) _).imp of_decide_eq_true
  · exact decide_eq_true (Nat.le_trans (of_decide_eq_true hab) (of_decide_eq_true hbc))
  · simpa using Nat.le_total a.symbol.span.start b.symbol.span.start

theorem pairwise_key_kept (t : Arena) (source : Text) (captured : List Captured) :
    (kept t source captured).Pairwise fun d e => d.key ≠ e.key :=
  (List.mergeSort_perm _ _).symm.pairwise (pairwise_dropRepeats [] _) Ne.symm

/-! ### Containers -/

/-- A definition encloses a scope: its own scope is the nearest one above, and it is the first with it. -/
structure Encloses (t : Arena) (definitions : List Definition) (scope : Nat) (e : Definition) : Prop where
  above : t.Above e.scope scope
  nearest : ∀ other ∈ definitions, t.Above other.scope scope →
    other.scope = e.scope ∨ t.Above other.scope e.scope
  first : definitions.find? (fun other => other.scope == e.scope) = some e

theorem Encloses.unique (h : Encloses t definitions scope d) (h' : Encloses t definitions scope e)
    (hlinked : t.Linked) : d = e := by
  have hd := List.mem_of_find?_eq_some h.first
  have he := List.mem_of_find?_eq_some h'.first
  have hsame : d.scope = e.scope := by
    obtain heq | habove := h.nearest e he h'.above
    · exact heq.symm
    obtain heq | habove' := h'.nearest d hd h.above
    · exact heq
    · exact absurd (hlinked.lt_of_above habove) (Nat.not_lt_of_lt (hlinked.lt_of_above habove'))
  exact Option.some.inj (h.first.symm.trans (hsame ▸ h'.first))

theorem owner?_eq_none_iff : owner? definitions i = none ↔ ∀ e ∈ definitions, e.scope ≠ i := by
  simp [owner?]

theorem container?_eq_none_iff (h : t.Linked) :
    container? t definitions scope = none ↔ ∀ e ∈ definitions, ¬t.Above e.scope scope := by
  simp only [container?, List.findSome?_eq_none_iff, owner?_eq_none_iff, h.above_iff_of_ancestors rfl]
  exact ⟨fun hnone e he hmem => hnone e.scope hmem e he rfl, fun hnone a ha e he heq => hnone e he (heq ▸ ha)⟩

theorem exists_encloses (h : t.Linked) (hsome : container? t definitions scope = some name) :
    ∃ e, Encloses t definitions scope e ∧ e.symbol.name = name := by
  obtain ⟨below, a, beyond, hclimb, howner, hbelow⟩ := List.findSome?_eq_some_iff.mp hsome
  obtain ⟨e, hfirst, hname⟩ := Option.map_eq_some_iff.mp howner
  obtain rfl : e.scope = a := by simpa using List.find?_some hfirst
  refine ⟨e, ⟨?_, fun other hother habove => ?_, hfirst⟩, hname⟩
  · rw [h.above_iff_of_ancestors hclimb]
    exact List.mem_append_right _ List.mem_cons_self
  · rw [h.above_iff_of_ancestors hclimb, List.mem_append, List.mem_cons] at habove
    rw [h.above_iff_of_ancestors (h.ancestors_of_append hclimb).symm]
    -- Nobody owns the nodes that the climb passed before.
    exact habove.resolve_left fun hpassed => owner?_eq_none_iff.mp (hbelow _ hpassed) other hother rfl

/-- **The container is the nearest scope above.** -/
theorem container?_eq_some_iff (h : t.Linked) :
    container? t definitions scope = some name ↔ ∃ e, Encloses t definitions scope e ∧ e.symbol.name = name := by
  refine ⟨exists_encloses h, fun ⟨e, hencloses, hname⟩ => ?_⟩
  cases hcontainer : container? t definitions scope with
  | none =>
    exact absurd hencloses.above
      ((container?_eq_none_iff h).mp hcontainer e (List.mem_of_find?_eq_some hencloses.first))
  | some other =>
    obtain ⟨e', hencloses', hname'⟩ := exists_encloses h hcontainer
    rw [← hname, ← hname', hencloses.unique hencloses' h]

theorem collect_eq (t : Arena) (source : Text) (captured : List Captured) :
    collect t source captured = (kept t source captured).map fun d =>
      { d.symbol with container := container? t (kept t source captured) d.scope } :=
  rfl

theorem inOrder_collect (t : Arena) (source : Text) (captured : List Captured) :
    Symbol.InOrder (collect t source captured) := by
  rw [collect_eq, Symbol.InOrder, List.pairwise_map]
  exact pairwise_start_kept t source captured

theorem pairwise_collect (t : Arena) (source : Text) (captured : List Captured) :
    (collect t source captured).Pairwise fun a b =>
      ¬(a.span = b.span ∧ a.nameSpan = b.nameSpan ∧ a.kind = b.kind) := by
  rw [collect_eq, List.pairwise_map]
  refine (pairwise_key_kept t source captured).imp fun hne hsame => hne ?_
  obtain ⟨hspan, hnameSpan, hkind⟩ := hsame
  exact Prod.ext hspan (Prod.ext hnameSpan hkind)

theorem name_of_mem_collect {a : Symbol} (ha : a ∈ collect t source captured) :
    a.name ≠ [] ∧ a.name.IsSingleSpaced := by
  rw [collect_eq] at ha
  obtain ⟨d, hd, rfl⟩ := List.mem_map.mp ha
  obtain ⟨-, entry, -, -, hmakes, -⟩ := (keeps_kept t source captured).made d hd
  refine ⟨hmakes.nonblank, ?_⟩
  rw [hmakes.name]
  exact Text.isSingleSpaced_singleSpaced _

theorem containers_collect (h : t.Linked) (source : Text) (captured : List Captured) :
    List.Forall₂ (fun a d => a.bare = d.symbol ∧
      (a.container.isSome ↔ ∃ e ∈ kept t source captured, t.Above e.scope d.scope) ∧
      ∀ name, a.container = some name ↔
        ∃ e, Encloses t (kept t source captured) d.scope e ∧ e.symbol.name = name)
      (collect t source captured) (kept t source captured) := by
  rw [collect_eq, List.forall₂_map_left_iff, List.forall₂_same]
  intro d hd
  obtain ⟨-, entry, -, -, hmakes, -⟩ := (keeps_kept t source captured).made d hd
  refine ⟨?_, ?_, fun name => container?_eq_some_iff h⟩
  · rw [Symbol.bare, ← hmakes.container]
  · rw [Option.isSome_iff_ne_none, Ne, container?_eq_none_iff h]
    push Not
    rfl

end Definition

namespace CaptureQuery

variable {q : CaptureQuery} {parser : Parser} {parsed : Parsed} {spans : List Span}

/-! ### Queries -/

/-- The nodes that are searched: those for the spans, or the root if there is no span. -/
def searched (q : CaptureQuery) (parser : Parser) (parsed : Parsed) (spans : List Span) :
    Except BufferError (List Nat) :=
  if spans.isEmpty then .ok [Arena.root] else q.searchNodes parser parsed parsed.raw.arena spans

/-- The symbols below the nodes that are searched. -/
def collected (q : CaptureQuery) (parser : Parser) (parsed : Parsed) (search : List Nat) : List Symbol :=
  Definition.collect parsed.raw.arena parsed.tree.source (q.capturedBelow parser parsed search)

theorem runWithin_eq (q : CaptureQuery) (parser : Parser) (parsed : Parsed) (spans : List Span) :
    q.runWithin parser parsed spans =
      (q.checkGrammar parsed).bind fun _ => (q.searched parser parsed spans).map (q.collected parser parsed) := by
  unfold runWithin searched
  cases q.checkGrammar parsed with
  | error e => rfl
  | ok => cases spans <;> rfl

theorem searchNodes_append (q : CaptureQuery) (parser : Parser) (parsed : Parsed) (t : Arena)
    (before after : List Span) :
    q.searchNodes parser parsed t (before ++ after) =
      (q.searchNodes parser parsed t before).bind fun found =>
        (q.searchNodes parser parsed t after).map (found ++ ·) := by
  induction before with
  | nil =>
    rw [List.nil_append]
    cases q.searchNodes parser parsed t after <;> rfl
  | cons s rest ih =>
    rw [List.cons_append, searchNodes, searchNodes, ih]
    cases parsed.tree.covering s with
    | error => rfl
    | ok i =>
      cases q.searchNodes parser parsed t rest with
      | error => rfl
      | ok found =>
        simp only [Except.bind]
        cases parser.descendant? q.language q.text parsed.tree.source (parsed.tree.span i) <;>
          cases q.searchNodes parser parsed t after <;> rfl

theorem exists_searchNodes_iff (t : Arena) :
    (∃ search, q.searchNodes parser parsed t spans = .ok search) ↔ ∀ s ∈ spans, parsed.tree.inBounds s = true := by
  induction spans with
  | nil => simp [searchNodes]
  | cons s rest ih =>
    rw [searchNodes, Tree.covering, List.forall_mem_cons, ← ih]
    cases parsed.tree.inBounds s with
    | false => simp
    | true =>
      simp only [if_pos, true_and]
      cases q.searchNodes parser parsed t rest with
      | error => simp
      | ok found => cases parser.descendant? q.language q.text parsed.tree.source _ <;> simp

theorem exists_runWithin_iff :
    (∃ symbols, q.runWithin parser parsed spans = .ok symbols) ↔
      parsed.tree.grammar = q.grammar ∧ ∀ s ∈ spans, parsed.tree.inBounds s = true := by
  have hsearch : (∃ search, q.searched parser parsed spans = .ok search) ↔
      ∀ s ∈ spans, parsed.tree.inBounds s = true := by
    cases spans with
    | nil => simp [searched]
    | cons => exact exists_searchNodes_iff _
  rw [runWithin_eq, ← hsearch, checkGrammar]
  by_cases hgrammar : parsed.tree.grammar = q.grammar
  · rw [if_pos hgrammar]
    cases q.searched parser parsed spans <;> simp [Except.bind, Except.map, hgrammar]
  · rw [if_neg hgrammar]
    simp [Except.bind, hgrammar]

/-- **Listing the spans twice changes nothing.** -/
theorem runWithin_append_self (q : CaptureQuery) (parser : Parser) (parsed : Parsed) (spans : List Span) :
    q.runWithin parser parsed (spans ++ spans) = q.runWithin parser parsed spans := by
  cases spans with
  | nil => rfl
  | cons s rest =>
    have htwice : ∀ search, q.collected parser parsed (search ++ search) = q.collected parser parsed search := by
      intro search
      rw [collected, capturedBelow, List.flatMap_append, Definition.collect_append_self]
      rfl
    have hsearched : ∀ others, q.searched parser parsed (s :: rest ++ others) =
        q.searchNodes parser parsed parsed.raw.arena (s :: rest ++ others) := fun _ => rfl
    rw [runWithin_eq, runWithin_eq, hsearched, searchNodes_append]
    congr 1
    funext _
    rw [← List.append_nil (s :: rest), hsearched, List.append_nil]
    cases q.searchNodes parser parsed parsed.raw.arena (s :: rest) with
    | error => rfl
    | ok search => exact congrArg Except.ok (htwice search)

/-- **The symbols of a query are unique, ordered and nested.** A query answers for trees of its grammar and spans
inside their source. Every definition that some capture makes is among the symbols, once for each span, span of the
name and kind, with the scope that belongs to the first such capture. The symbols come in the order of their starts,
and their names are words with one space between them. A symbol has a container exactly if the scope of some symbol is
a proper ancestor of its own scope. The container is then the first symbol with the nearest such scope. Listing the
spans twice changes nothing. -/
theorem runWithin_unique_nested (q : CaptureQuery) (parser : Parser) (parsed : Parsed) (spans : List Span) :
    ((∃ symbols, q.runWithin parser parsed spans = .ok symbols) ↔
      parsed.tree.grammar = q.grammar ∧ ∀ s ∈ spans, s.start ≤ s.stop ∧ s.stop ≤ parsed.tree.sourceLength) ∧
    (∀ symbols, q.runWithin parser parsed spans = .ok symbols →
      ∃ search definitions, q.searched parser parsed spans = .ok search ∧
        Definition.Keeps parsed.raw.arena parsed.tree.source (q.capturedBelow parser parsed search) definitions ∧
        Symbol.InOrder symbols ∧
        (∀ a ∈ symbols, a.name ≠ [] ∧ a.name.IsSingleSpaced) ∧
        (symbols.Pairwise fun a b => ¬(a.span = b.span ∧ a.nameSpan = b.nameSpan ∧ a.kind = b.kind)) ∧
        List.Forall₂ (fun a d => a.bare = d.symbol ∧
          (a.container.isSome ↔ ∃ e ∈ definitions, parsed.raw.arena.Above e.scope d.scope) ∧
          ∀ name, a.container = some name ↔
            ∃ e, Definition.Encloses parsed.raw.arena definitions d.scope e ∧ e.symbol.name = name)
          symbols definitions) ∧
    q.runWithin parser parsed (spans ++ spans) = q.runWithin parser parsed spans := by
  refine ⟨?_, fun symbols hrun => ?_, q.runWithin_append_self parser parsed spans⟩
  · rw [exists_runWithin_iff]
    simp only [Tree.inBounds, Span.isOrdered, Bool.and_eq_true, decide_eq_true_eq]
  · obtain ⟨search, hsearch, rfl⟩ : ∃ search, q.searched parser parsed spans = .ok search ∧
        q.collected parser parsed search = symbols := by
      rw [runWithin_eq] at hrun
      cases hgrammar : q.checkGrammar parsed with
      | error => rw [hgrammar] at hrun; cases hrun
      | ok =>
        rw [hgrammar] at hrun
        cases hsearch : q.searched parser parsed spans with
        | error => rw [hsearch] at hrun; cases hrun
        | ok search => rw [hsearch] at hrun; exact ⟨search, rfl, Except.ok.inj hrun⟩
    exact ⟨search, _, hsearch, Definition.keeps_kept _ _ _, Definition.inOrder_collect _ _ _,
      fun a => Definition.name_of_mem_collect, Definition.pairwise_collect _ _ _,
      Definition.containers_collect parsed.raw.linked_arena _ _⟩

/-- A function in the block of another one. The outer is captured by its name, so its scope is the function around the
name. Of the two breadcrumbs on the inner the last one counts, so its scope is the block. The first span leads to the
program and the second to the inner function, so the inner one is captured twice. -/
theorem runWithin_unique_nested_last_breadcrumb :
    let node (kind : String) (field : Option String) (start stop : Nat) :=
      ParseTree.node ⟨kind, true, false, false, field, ⟨start, stop⟩, ⟨0, start⟩, ⟨0, stop⟩⟩
    let raw := node "program" none 0 7
      [node "function" none 0 7 [node "word" (some "name") 0 1 [],
        node "block" none 2 7 [node "function" none 3 6 [node "word" (some "name") 3 4 []]]]]
    let source : Text := ['f', ' ', '{', 'g', '(', ')', '}']
    let parser : Parser :=
      { load := fun _ => .ok ()
        parse := fun _ _ => some raw
        compile := fun _ _ => .ok ["definition.function", "breadcrumb.9", "breadcrumb.1"]
        captures := fun _ _ _ i => [(0, 2), (1, 4), (0, 4), (2, 4)].filter fun c => raw.arena.isAncestorOf i c.2
        descendant? := fun _ _ _ s => (raw.arena.indices.filter fun i => (raw.arena.span i).contains s).getLast? }
    let q : CaptureQuery := ⟨"g", ⟨"g"⟩, "", [.definition .function, .breadcrumb 9, .breadcrumb 1]⟩
    let spans : List Span := [⟨0, 7⟩, ⟨3, 6⟩]
    let symbols : List Symbol :=
      [⟨['f'], ⟨0, 1⟩, ⟨0, 1⟩, .function, none⟩, ⟨['g'], ⟨3, 6⟩, ⟨3, 4⟩, .function, some ['f']⟩]
    ∃ tree, Tree.ofParse "g" source raw = .ok tree ∧
      let parsed : Parsed := ⟨raw, tree, ⟨"g"⟩, .full⟩
      q.runWithin parser parsed spans = .ok symbols ∧
      q.runWithin parser parsed (spans ++ spans) = .ok symbols ∧
      ∃ outer inner : Definition, [outer.symbol, inner.symbol] = symbols.map Symbol.bare ∧
        Definition.Encloses raw.arena [outer, inner] inner.scope outer ∧
        ∀ e ∈ [outer, inner], ¬raw.arena.Above e.scope outer.scope := by
  intro node raw source parser q spans symbols
  obtain ⟨tree, hparse, hsearch⟩ : ∃ tree, Tree.ofParse "g" source raw = .ok tree ∧
      q.searched parser ⟨raw, tree, ⟨"g"⟩, .full⟩ spans = .ok [0, 4] := Tree.exists_build_of_any (by decide +kernel)
  obtain ⟨hgrammar, hsource, -⟩ := Tree.build_spec hparse
  refine ⟨tree, hparse, ?_⟩
  intro parsed
  obtain ⟨hanswers, hspec, htwice⟩ := runWithin_unique_nested q parser parsed spans
  have hlength : tree.sourceLength = 7 := congrArg Text.byteCount hsource
  obtain ⟨found, hrun⟩ := hanswers.mpr ⟨hgrammar, by rw [hlength]; decide⟩
  obtain rfl : found = symbols := by
    let inner : List Definition.Captured := [(.breadcrumb 9, 4), (.definition .function, 4), (.breadcrumb 1, 4)]
    let captured : List Definition.Captured := (.definition .function, 2) :: (inner ++ inner)
    let definitions : List Definition :=
      [⟨⟨['f'], ⟨0, 1⟩, ⟨0, 1⟩, .function, none⟩, 1⟩, ⟨⟨['g'], ⟨3, 6⟩, ⟨3, 4⟩, .function, none⟩, 3⟩]
    have hkept : Definition.kept raw.arena source captured = definitions := by
      have hleft : Definition.dropRepeats [] (Definition.ofCaptures raw.arena source captured) = definitions := by
        decide +kernel
      rw [Definition.kept, hleft]
      exact List.mergeSort_of_pairwise (by decide)
    have hcollect : Definition.collect raw.arena source captured = symbols := by
      rw [Definition.collect_eq, hkept]
      decide +kernel
    have hbelow : q.capturedBelow parser parsed [0, 4] = captured := by
      simp only [capturedBelow, parser]
      decide +kernel
    rw [runWithin_eq, checkGrammar, if_pos hgrammar, hsearch] at hrun
    rw [← Except.ok.inj hrun, ← hcollect, ← hsource, ← hbelow]
    rfl
  refine ⟨hrun, htwice.trans hrun, ?_⟩
  obtain ⟨-, definitions, -, -, -, -, -, hpairs⟩ := hspec symbols hrun
  change List.Forall₂ _ [_, _] _ at hpairs
  obtain _ | ⟨⟨houter, halone, -⟩, _ | ⟨⟨hinner, -, hcontainer⟩, _ | _⟩⟩ := hpairs
  next outer inner =>
    refine ⟨outer, inner, by rw [← houter, ← hinner]; rfl, ?_, fun e he habove => ?_⟩
    · obtain ⟨e, hencloses, hname⟩ := (hcontainer ['f']).mp rfl
      obtain rfl : e = outer := by
        have hmem := List.mem_of_find?_eq_some hencloses.first
        simp only [List.mem_cons, List.not_mem_nil, or_false] at hmem
        refine hmem.resolve_right fun heq => ?_
        rw [heq, ← hinner] at hname
        cases hname
      exact hencloses
    · cases halone.mpr ⟨e, he, habove⟩

end CaptureQuery

end LiveSyntax
