import LiveSyntax.Proofs.Extraction
import Mathlib.Data.List.Sort

/-!
# Containers follow the tree

`Pattern.extract` finds containers from the spans of the symbols alone, after it has put them in order. If no
node below the root is empty, children lie inside their parents, and siblings are apart, then this gives back
the tree. Pre-order is an order of the starts, so nothing has to be moved. Of the nodes before a node, exactly
its ancestors contain its span: all others end before it starts, and it holds a byte. So the last symbol that
contains a span belongs to the nearest ancestor that has a symbol, also along a chain of nodes that all have the
same span.

## Main definitions

- `Pattern.OnePerKind`: no two well-formed patterns have the same kind.
- `Pattern.symbolOf?`: the symbol of a node.
- `Pattern.containerOf?`: the name of the symbol of its nearest ancestor that has one.

## Main results

- `Tree.contains_iff_mem_ancestors`: of earlier nodes, those that contain a node are its ancestors.
- `Pattern.nearest_eq_containerOf?`: the nearest enclosing symbol is that of an ancestor.
- `Pattern.extract_follows_tree`: one symbol for each node that has one, in pre-order, with its container.
-/

namespace LiveSyntax

namespace Arena

variable {t : Arena} {i j : Nat}

theorem Linked.lt_of_ancestor (h : t.Linked) (hi : i < t.size) (hj : j ∈ t.ancestors i) : j < i := by
  have hbelow := (h.below_iff_mem_ancestors (h.lt_of_mem_ancestors hi hj) hi).mpr (.inr hj)
  have hdepth := h.depth_lt_of_mem_ancestors hi hj
  refine Nat.lt_of_le_of_ne hbelow.1 ?_
  rintro rfl
  exact Nat.lt_irrefl _ hdepth

theorem Linked.pairwise_ancestors (h : t.Linked) (hi : i < t.size) : (t.ancestors i).Pairwise (· > ·) := by
  refine h.climb (P := fun i => (t.ancestors i).Pairwise (· > ·)) ?_ ?_ hi
  · rw [h.ancestors_root (Nat.zero_lt_of_lt hi)]
    exact List.Pairwise.nil
  · intro i p hi hp hparent _ ih
    rw [h.ancestors_eq_cons hi hparent]
    exact List.pairwise_cons.mpr ⟨fun j hj => h.lt_of_ancestor hp hj, ih⟩

/-- The ancestors are what is left of the earlier nodes, read backwards. -/
theorem Linked.ancestors_eq_filter (h : t.Linked) (hi : i < t.size) :
    t.ancestors i = (List.range i).reverse.filter fun j => j ∈ t.ancestors i := by
  have hback : (List.range i).reverse.Pairwise (· > ·) :=
    List.pairwise_reverse.mpr List.pairwise_lt_range
  refine (h.pairwise_ancestors hi).eq_of_mem_iff (hback.filter _) fun j => ?_
  rw [List.mem_filter, List.mem_reverse, List.mem_range, decide_eq_true_eq]
  exact ⟨fun hj => ⟨h.lt_of_ancestor hi hj, hj⟩, And.right⟩

end Arena

namespace Tree

variable {t : Tree} {i j : Nat}

/-- Pre-order is an order of the starts. -/
theorem SiblingsApart.start_le_start (hapart : t.SiblingsApart) (h : t.WellNested) (hj : j < t.size)
    (hle : i ≤ j) : (t.span i).start ≤ (t.span j).start := by
  have hi : i < t.size := Nat.lt_of_le_of_lt hle hj
  rcases Nat.lt_or_ge j (t.subtreeEnd i) with hbelow | hafter
  · exact (h.covers_of_below hi hj ⟨hle, hbelow⟩).1
  · exact Nat.le_trans (h.start_le_stop hi) (hapart.stop_le_start_of_after h hi hj hafter)

/-- **Of the nodes before a node, its ancestors contain it and no others.** A node whose subtree has ended stops
before the later one starts, and this one reaches further. -/
theorem contains_iff_mem_ancestors (h : t.WellNested) (hapart : t.SiblingsApart) (hfilled : t.Filled)
    (hi : i < t.size) (hlt : j < i) : (t.span j).contains (t.span i) = true ↔ j ∈ t.ancestors i := by
  have hj : j < t.size := Nat.lt_trans hlt hi
  rw [Span.contains_iff]
  constructor
  · rintro ⟨-, hstop⟩
    have hbyte := hfilled i hi (Nat.ne_zero_of_lt hlt)
    have hbelow : i < t.subtreeEnd j := by
      by_contra hafter
      have := hapart.stop_le_start_of_after h hj hi (Nat.le_of_not_lt hafter)
      omega
    exact ((h.linked.below_iff_mem_ancestors hj hi).mp ⟨Nat.le_of_lt hlt, hbelow⟩).resolve_left
      (Nat.ne_of_lt hlt)
  · exact fun habove => h.covers_of_mem_ancestors hi habove

end Tree

namespace Pattern

variable {t : Tree} {i n : Nat} {patterns : List Pattern} {a : Symbol}

/-- No more than one well-formed pattern for each kind of node. -/
abbrev OnePerKind (patterns : List Pattern) : Prop :=
  (patterns.filter isWellFormed).Pairwise fun p q => p.nodeKind ≠ q.nodeKind

/-- The symbol of a node: what the first pattern makes of it that makes anything of it. -/
def symbolOf? (t : Tree) (patterns : List Pattern) (i : Nat) : Option Symbol :=
  patterns.findSome? (yield? t i)

/-- The name of the symbol of the nearest ancestor that has one. -/
def containerOf? (t : Tree) (patterns : List Pattern) (i : Nat) : Option Text :=
  ((t.ancestors i).findSome? (symbolOf? t patterns)).map (·.name)

theorem span_of_symbolOf? (h : symbolOf? t patterns i = some a) : a.span = t.span i := by
  obtain ⟨p, -, hyield⟩ := List.exists_of_findSome?_eq_some h
  exact (of_yield? hyield).2.2.1

theorem isSome_symbolOf?_iff :
    (symbolOf? t patterns i).isSome = true ↔ ∃ p ∈ patterns, p.nodeKind ≠ "" ∧ p.nameSource.word ≠ "" ∧
      p.nodeKind = t.kind i ∧ ∃ c ∈ t.children i, p.nameSource.picks t c = true := by
  rw [symbolOf?, List.findSome?_isSome_iff]
  refine exists_congr fun p => and_congr_right fun _ => ?_
  rw [yield?]
  split
  · next hmatch =>
    rw [Option.isSome_map, List.find?_isSome]
    exact ⟨fun hchild => ⟨hmatch.1, hmatch.2.1, hmatch.2.2, hchild⟩, fun hall => hall.2.2.2⟩
  · next hmatch =>
    refine iff_of_false Bool.false_ne_true ?_
    rintro ⟨hkind, hname, hsame, -⟩
    exact hmatch ⟨hkind, hname, hsame⟩

/-- With one pattern for each kind, a node has no more than one symbol. -/
theorem filterMap_yield? (honce : OnePerKind patterns) (t : Tree) (i : Nat) :
    patterns.filterMap (yield? t i) = (symbolOf? t patterns i).toList := by
  induction patterns with
  | nil => rfl
  | cons p patterns ih =>
    rw [List.filterMap_cons, symbolOf?, List.findSome?_cons]
    cases hyield : p.yield? t i with
    | none => exact ih (honce.sublist ((List.sublist_cons_self p patterns).filter _))
    | some a =>
      obtain ⟨hformed, hkind, -⟩ := of_yield? hyield
      rw [OnePerKind, List.filter_cons_of_pos hformed, List.pairwise_cons] at honce
      have hnone : ∀ q ∈ patterns, q.yield? t i = none := by
        intro q hq
        by_contra hsome
        obtain ⟨b, hb⟩ := Option.ne_none_iff_exists'.mp hsome
        obtain ⟨hformed', hkind', -⟩ := of_yield? hb
        exact honce.1 q (List.mem_filter.mpr ⟨hq, hformed'⟩) (hkind.trans hkind'.symm)
      rw [List.filterMap_eq_nil_iff.mpr hnone, Option.toList_some]

theorem doubleLoop_eq_filterMap (h : t.WellNested) (honce : OnePerKind patterns) :
    doubleLoop t patterns = t.indices.filterMap (symbolOf? t patterns) := by
  rw [doubleLoop, h.linked.preorder_unfold_root h.size_pos, List.filterMap_eq_flatMap_toList]
  simp only [filterMap_yield? honce]

/-! ### Spans and ancestors -/

theorem inOrder_filterMap (h : t.WellNested) (hapart : t.SiblingsApart) (patterns : List Pattern) (hn : n ≤ t.size) :
    Symbol.InOrder ((List.range n).filterMap (symbolOf? t patterns)) := by
  refine List.pairwise_filterMap.mpr (List.Pairwise.imp_of_mem ?_ List.pairwise_lt_range)
  intro i j _ hj hlt a ha b hb
  rw [span_of_symbolOf? ha, span_of_symbolOf? hb]
  exact hapart.start_le_start h (Nat.lt_of_lt_of_le (List.mem_range.mp hj) hn) (Nat.le_of_lt hlt)

/-- **The nearest enclosing symbol is that of an ancestor.** -/
theorem nearest_eq_containerOf? (h : t.WellNested) (hapart : t.SiblingsApart) (hfilled : t.Filled)
    (patterns : List Pattern) (hi : i < t.size) :
    Symbol.nearest ((List.range i).filterMap (symbolOf? t patterns)) (t.span i) = containerOf? t patterns i := by
  have hearlier : ∀ j ∈ (List.range i).reverse,
      ((symbolOf? t patterns j).filter fun a => a.span.contains (t.span i)) =
        if decide (j ∈ t.ancestors i) = true then symbolOf? t patterns j else none := by
    intro j hj
    have hlt : j < i := List.mem_range.mp (List.mem_reverse.mp hj)
    cases ha : symbolOf? t patterns j with
    | none => simp
    | some a =>
      rw [Option.filter_some, span_of_symbolOf? ha]
      simp only [Tree.contains_iff_mem_ancestors h hapart hfilled hi hlt, decide_eq_true_eq]
  -- Both sides are the first symbol of a list, backwards from the node: of all symbols that contain it, and of
  -- the symbols of its ancestors.
  rw [containerOf?, h.linked.ancestors_eq_filter hi, ← List.head?_filterMap, List.filterMap_filter,
    Symbol.nearest, List.findRev?_eq_find?_reverse, ← List.filterMap_reverse, ← List.head?_filter,
    List.filter_filterMap, List.filterMap_congr hearlier]

theorem assignContainers_filterMap (h : t.WellNested) (hapart : t.SiblingsApart) (hfilled : t.Filled)
    (patterns : List Pattern) (hn : n ≤ t.size) :
    Symbol.assignContainers ((List.range n).filterMap (symbolOf? t patterns)) =
      (List.range n).filterMap fun i =>
        (symbolOf? t patterns i).map fun a => { a with container := containerOf? t patterns i } := by
  induction n with
  | zero => rfl
  | succ n ih =>
    have hordered := inOrder_filterMap h hapart patterns hn
    rw [List.range_succ, List.filterMap_append] at hordered ⊢
    rw [List.filterMap_append, ← ih (Nat.le_of_succ_le hn)]
    cases ha : symbolOf? t patterns n with
    | none => simp [ha]
    | some a =>
      rw [List.filterMap_cons_some ha, List.filterMap_nil] at hordered ⊢
      have hcontainer := nearest_eq_containerOf? h hapart hfilled patterns hn
      rw [← span_of_symbolOf? ha] at hcontainer
      rw [Symbol.assignContainers_concat hordered, hcontainer]
      simp [ha]

/-- **Containers follow the tree.** Take any tree that some events build, whose spans are nested and hold a byte
below the root, and whose siblings are apart. Take any patterns with no more than one that is well-formed for each
kind of node, such that no two nodes have the same symbol. Then a node has a symbol exactly if some well-formed
pattern has its kind and finds the child with the name, and extraction gives these symbols in the pre-order of
their nodes. The container of a symbol is the name of the symbol of the nearest ancestor of its node that has
one, and it has no container if no ancestor has a symbol. -/
theorem extract_follows_tree {grammar : String} {source : Text} {events : List Event} {t : Tree}
    (hbuild : Tree.build grammar source events = .ok t) (hnested : t.Nested) (hapart : t.SiblingsApart)
    (hfilled : t.Filled) {patterns : List Pattern} (honce : OnePerKind patterns)
    (hdistinct : ∀ i < t.size, ∀ j < t.size, i ≠ j → ∀ a ∈ symbolOf? t patterns i, a ∉ symbolOf? t patterns j) :
    (∀ i, (symbolOf? t patterns i).isSome = true ↔
      ∃ p ∈ patterns, p.nodeKind ≠ "" ∧ p.nameSource.word ≠ "" ∧ p.nodeKind = t.kind i ∧
        ∃ c ∈ t.children i, p.nameSource.picks t c = true) ∧
    extract t patterns = (t.unfold Arena.root).preorder.filterMap fun i =>
      (symbolOf? t patterns i).map fun a => { a with container := containerOf? t patterns i } := by
  have h := Tree.wellNested_of_build hbuild hnested
  refine ⟨fun i => isSome_symbolOf?_iff, ?_⟩
  have hordered : Symbol.InOrder (t.indices.filterMap (symbolOf? t patterns)) :=
    inOrder_filterMap h hapart patterns (Nat.le_refl _)
  have hchain : (t.indices.filterMap (symbolOf? t patterns)).IsChain (· ≠ ·) := by
    refine (List.pairwise_filterMap.mpr (List.Pairwise.imp_of_mem ?_ List.nodup_range)).isChain
    rintro i j hi hj hne a ha _ hb rfl
    exact hdistinct i (List.mem_range.mp hi) j (List.mem_range.mp hj) hne a ha hb
  rw [extract_eq_finish h.linked h.size_pos, doubleLoop_eq_filterMap h honce, Symbol.finish_of_inOrder hordered,
    List.destutter_of_isChain _ _ hchain, h.linked.preorder_unfold_root h.size_pos]
  exact assignContainers_filterMap h hapart hfilled patterns (Nat.le_refl _)

/-- The block of the first class and the function below it have the same span, and the block is the container. The
class inside the function lies inside all three, and the last function starts where they end. -/
theorem extract_follows_tree_through_block :
    let spec (kind : String) (field : Option String) (start stop : Nat) : NodeSpec :=
      ⟨kind, ⟨start, stop⟩, true, false, field, none⟩
    let label (start : Nat) : Event := .leaf (spec "id" (some "name") start (start + 1))
    let events : List Event :=
      [.enter (spec "file" none 0 8), .enter (spec "class" none 0 6), label 0, .enter (spec "block" none 2 6),
        .enter (spec "function" none 2 6), label 2, .enter (spec "class" none 4 6), label 4, .leave, .leave, .leave,
        .leave, .enter (spec "function" none 6 8), label 6, .leave, .leave]
    let patterns : List Pattern :=
      [⟨"function", .field "name", .function⟩, ⟨"class", .child "", .block⟩, ⟨"class", .child "id", .classType⟩,
        ⟨"block", .child "function", .block⟩]
    ∃ t, Tree.build "g" ['A', ' ', 'f', ' ', 'B', ' ', 'g', ' '] events = .ok t ∧ t.Nested ∧ t.SiblingsApart ∧
      t.Filled ∧ OnePerKind patterns ∧
      (∀ i < t.size, ∀ j < t.size, i ≠ j →
        ∀ a ∈ symbolOf? t patterns i, a ∉ symbolOf? t patterns j) ∧
      extract t patterns =
        [⟨['A'], ⟨0, 6⟩, ⟨0, 1⟩, .classType, none⟩, ⟨['f', ' ', 'B'], ⟨2, 6⟩, ⟨2, 6⟩, .block, some ['A']⟩,
          ⟨['f'], ⟨2, 6⟩, ⟨2, 3⟩, .function, some ['f', ' ', 'B']⟩,
          ⟨['B'], ⟨4, 6⟩, ⟨4, 5⟩, .classType, some ['f']⟩, ⟨['g'], ⟨6, 8⟩, ⟨6, 7⟩, .function, none⟩] := by
  intro spec label events patterns
  obtain ⟨t, hbuild, hnested, hapart, hfilled, hdistinct, houtline⟩ :
      ∃ t, Tree.build "g" ['A', ' ', 'f', ' ', 'B', ' ', 'g', ' '] events = .ok t ∧ t.Nested ∧ t.SiblingsApart ∧
        t.Filled ∧
        (∀ i < t.size, ∀ j < t.size, i ≠ j →
          ∀ a ∈ symbolOf? t patterns i, a ∉ symbolOf? t patterns j) ∧
        ((t.unfold Arena.root).preorder.filterMap fun i =>
          (symbolOf? t patterns i).map fun a => { a with container := containerOf? t patterns i }) =
          [⟨['A'], ⟨0, 6⟩, ⟨0, 1⟩, .classType, none⟩, ⟨['f', ' ', 'B'], ⟨2, 6⟩, ⟨2, 6⟩, .block, some ['A']⟩,
            ⟨['f'], ⟨2, 6⟩, ⟨2, 3⟩, .function, some ['f', ' ', 'B']⟩,
            ⟨['B'], ⟨4, 6⟩, ⟨4, 5⟩, .classType, some ['f']⟩, ⟨['g'], ⟨6, 8⟩, ⟨6, 7⟩, .function, none⟩] :=
    Tree.exists_build_of_any (by decide +kernel)
  have honce : OnePerKind patterns := by decide
  have hextract := (extract_follows_tree hbuild hnested hapart hfilled honce hdistinct).2
  exact ⟨t, hbuild, hnested, hapart, hfilled, honce, hdistinct, hextract.trans houtline⟩

end Pattern

end LiveSyntax
