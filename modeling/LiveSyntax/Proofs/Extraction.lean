import LiveSyntax.Outline.Pattern
import LiveSyntax.Proofs.Cousins
import LiveSyntax.Proofs.OrderedTree
import LiveSyntax.Proofs.SymbolLists

/-!
# Extraction is a double loop

`Pattern.extract` puts the patterns into groups by kind, looks every node up once, and does not look at the
nodes at all if there is no group. The symbols are the same as if every pattern were tried on every node, in
the order of the list: a group has the patterns of its kind in their order, and patterns of other kinds give
nothing. So patterns that match nothing do not matter, and neither does how patterns of different kinds are
mixed.

A pattern that is listed twice makes each of its symbols twice. Whether both are reported depends on what is
found between them, as for any other list of symbols.

## Main definitions

- `Text.squeezed`: a text with its runs of blanks replaced by single spaces.
- `Pattern.yield?`: the symbol that a pattern makes of a node.
- `Pattern.doubleLoop`: every pattern tried on every node.

## Main results

- `Text.words_eq_filter`: words are the pieces between blanks.
- `Pattern.getD_byKind`: what the groups hold.
- `Pattern.extract_eq_finish`: extraction finishes the symbols of the double loop.
- `Pattern.extract_eq_double_loop`: the same with all steps written out.
- `Symbol.finish_without_repeats_iff`: when finished lists have no repeats.
-/

namespace LiveSyntax

namespace OrderedTree

theorem preorderAll_eq_flatMap {α : Type} (trees : List (OrderedTree α)) :
    preorderAll trees = trees.flatMap preorder := by
  induction trees with
  | nil => rw [preorderAll, List.flatMap_nil]
  | cons tree trees ih => rw [preorderAll, ih, List.flatMap_cons]

end OrderedTree

namespace Arena

variable {t : Arena} {i : Nat}

theorem Linked.preorder_unfoldUpTo (h : t.Linked) {fuel : Nat} (hi : i < t.size)
    (hfuel : t.subtreeEnd i - i ≤ fuel) : (t.unfoldUpTo fuel i).preorder = t.subtree i := by
  induction fuel generalizing i with
  | zero =>
    have := (h.bounds hi).1
    omega
  | succ fuel ih =>
    rw [unfoldUpTo, OrderedTree.preorder, OrderedTree.preorderAll_eq_flatMap, List.flatMap_map,
      h.subtree_eq_cons hi]
    congr 1
    refine List.flatMap_congr fun c hc => ?_
    obtain ⟨hclt, hparent⟩ := (h.mem_children_iff hi).mp hc
    have hbelow := h.below_of_parent? hi hclt hparent
    have hend := h.subtreeEnd_le hi (Nat.le_of_lt hbelow.1) hbelow.2
    exact ih hclt (by omega)

/-- The pre-order of the whole tree is the order of the indices. -/
theorem Linked.preorder_unfold_root (h : t.Linked) (hsize : 0 < t.size) :
    (t.unfold root).preorder = t.indices := by
  have hfuel : t.subtreeEnd root - root ≤ t.size := Nat.le_trans (Nat.sub_le _ _) (h.bounds hsize).2
  exact (h.preorder_unfoldUpTo hsize hfuel).trans (h.subtree_root hsize)

end Arena

/-- The word that a name source looks for. -/
def NameSource.word : NameSource → String
  | .field name => name
  | .child kind => kind

/-- Whether a child is one that a name source looks for. -/
def NameSource.picks (t : Tree) : NameSource → Nat → Bool
  | .field name, c => t.field? c == some name
  | .child kind, c => t.kind c == kind

namespace Text

/-- A text cut at every blank, where the empty pieces are left out and the others joined by single spaces. -/
def squeezed (text : Text) : Text :=
  List.intercalate [' '] ((text.splitOnP isBlank).filter (· ≠ []))

variable {c next : Char} {rest tail : Text}

theorem words_cons_of_blank (hc : isBlank c = true) : words (c :: rest) = words rest := by
  rw [words.eq_def]
  exact if_pos hc

theorem words_singleton (hc : isBlank c = false) : words [c] = [[c]] := by
  rw [words.eq_def]
  simp [hc, words]

theorem words_cons_before_blank (hc : isBlank c = false) (hnext : isBlank next = true) :
    words (c :: next :: tail) = [c] :: words (next :: tail) := by
  rw [words.eq_def]
  cases hwords : words (next :: tail) <;> simp [hc, hnext, hwords]

theorem words_cons_inside {word : Text} {others : List Text} (hc : isBlank c = false)
    (hnext : isBlank next = false) (hwords : words (next :: tail) = word :: others) :
    words (c :: next :: tail) = (c :: word) :: others := by
  rw [words.eq_def]
  simp [hc, hnext, hwords]

theorem splitOnP_cons_of_blank (hc : isBlank c = true) (rest : Text) :
    (c :: rest).splitOnP isBlank = [] :: rest.splitOnP isBlank := by
  rw [List.splitOnP_cons_eq_if_modifyHead, if_pos hc]

theorem splitOnP_cons_of_not_blank (hc : isBlank c = false) (rest : Text) :
    ∃ word others, rest.splitOnP isBlank = word :: others ∧
      (c :: rest).splitOnP isBlank = (c :: word) :: others := by
  obtain ⟨word, others, hrest⟩ := List.exists_cons_of_ne_nil (List.splitOnP_ne_nil isBlank rest)
  refine ⟨word, others, hrest, ?_⟩
  rw [List.splitOnP_cons_eq_if_modifyHead, if_neg (by simp [hc]), hrest, List.modifyHead_cons]

/-- The words are the pieces between the blanks that are not empty. -/
theorem words_eq_filter (text : Text) : text.words = (text.splitOnP isBlank).filter (· ≠ []) := by
  induction text with
  | nil => simp [words]
  | cons c rest ih =>
    cases hc : isBlank c with
    | true =>
      rw [words_cons_of_blank hc, ih, splitOnP_cons_of_blank hc]
      rfl
    | false =>
      obtain ⟨word, others, hrest, hsplit⟩ := splitOnP_cons_of_not_blank hc rest
      rw [hsplit, List.filter_cons_of_pos (by simp)]
      rw [hrest] at ih
      -- The piece that begins behind `c` is empty if the text ends there or a blank follows.
      cases rest with
      | nil =>
        rw [List.splitOnP_nil] at hrest
        cases hrest
        exact words_singleton hc
      | cons next tail =>
        cases hnext : isBlank next with
        | true =>
          rw [splitOnP_cons_of_blank hnext] at hrest
          cases hrest
          rw [words_cons_before_blank hc hnext, ih]
          rfl
        | false =>
          obtain ⟨word', others', -, hsplit'⟩ := splitOnP_cons_of_not_blank hnext tail
          rw [hsplit'] at hrest
          cases hrest
          exact words_cons_inside hc hnext ih

theorem singleSpaced_eq (text : Text) : text.singleSpaced = text.squeezed := by
  rw [singleSpaced, squeezed, words_eq_filter]

end Text

namespace Pattern

variable {t : Tree} {i : Nat} {kind : String} {p : Pattern} {patterns other : List Pattern}

/-- The symbol that a pattern makes of a node: the pattern has to say a kind and where the name is, the kind has to be
that of the node, and the name is the text of the first child that the pattern asks for. -/
def yield? (t : Tree) (i : Nat) (p : Pattern) : Option Symbol :=
  if p.nodeKind ≠ "" ∧ p.nameSource.word ≠ "" ∧ p.nodeKind = t.kind i then
    ((t.children i).find? (p.nameSource.picks t)).map fun n =>
      { name := (t.textOf n).squeezed
        span := t.span i
        nameSpan := t.span n
        kind := p.kind
        container := none }
  else none

/-- All symbols that patterns make of a tree: node by node in pre-order, and for each node pattern by pattern. -/
def doubleLoop (t : Tree) (patterns : List Pattern) : List Symbol :=
  (t.unfold Arena.root).preorder.flatMap fun i => patterns.filterMap (yield? t i)

/-! ### Groups -/

/-- The patterns for nodes of a kind, in their order. -/
def ofKind (kind : String) (patterns : List Pattern) : List Pattern :=
  patterns.filter fun p => p.isWellFormed && p.nodeKind == kind

theorem ofKind_eq (kind : String) (patterns : List Pattern) :
    ofKind kind patterns = (patterns.filter fun p => p.nodeKind = kind).filter isWellFormed := by
  rw [ofKind, List.filter_filter]
  rfl

/-- One pattern more goes behind the others of its group, and changes no other group. -/
theorem getD_addTo (groups : Groups) (p : Pattern) (kind : String) :
    (addTo groups p).getD kind [] = groups.getD kind [] ++ ofKind kind [p] := by
  rw [addTo]
  cases hformed : p.isWellFormed with
  | false => simp [ofKind, hformed]
  | true =>
    rw [if_pos rfl, Std.TreeMap.getD_insert]
    by_cases heq : p.nodeKind = kind
    · simp [ofKind, hformed, heq]
    · simp [ofKind, heq]

theorem getD_foldl_addTo (patterns : List Pattern) (groups : Groups) (kind : String) :
    (patterns.foldl addTo groups).getD kind [] = groups.getD kind [] ++ ofKind kind patterns := by
  induction patterns generalizing groups with
  | nil => simp [ofKind]
  | cons p patterns ih =>
    have hcons : ofKind kind (p :: patterns) = ofKind kind [p] ++ ofKind kind patterns :=
      List.filter_append [p] patterns
    rw [List.foldl_cons, ih, getD_addTo, hcons, List.append_assoc]

/-- **What the groups hold**: each has the well-formed patterns of its kind, in their order. -/
theorem getD_byKind (patterns : List Pattern) (kind : String) :
    (byKind patterns).getD kind [] = ofKind kind patterns := by
  rw [byKind, getD_foldl_addTo, Std.TreeMap.getD_emptyc, List.nil_append]

theorem symbolsAt_eq (groups : Groups) (t : Tree) (i : Nat) :
    symbolsAt groups t i = (groups.getD (t.kind i) []).filterMap fun p => p.symbol? t i := by
  rw [symbolsAt, Std.TreeMap.getD_eq_getD_getElem?]
  cases groups[t.kind i]? <;> rfl

theorem isWellFormed_iff : p.isWellFormed = true ↔ p.nodeKind ≠ "" ∧ p.nameSource.word ≠ "" := by
  rw [isWellFormed, Bool.and_eq_true, bne_iff_ne]
  refine and_congr_right fun _ => ?_
  cases p.nameSource with
  | field name => exact bne_iff_ne
  | child kind => exact bne_iff_ne

theorem yield?_eq (t : Tree) (i : Nat) (p : Pattern) :
    p.yield? t i = if (p.isWellFormed && p.nodeKind == t.kind i) = true then p.symbol? t i else none := by
  have hchild : p.nameChild? t i = (t.children i).find? (p.nameSource.picks t) := by
    rw [nameChild?]
    cases p.nameSource <;> rfl
  simp only [yield?, Bool.and_eq_true, isWellFormed_iff, beq_iff_eq, and_assoc, symbol?, hchild, Text.singleSpaced_eq]

theorem of_yield? {a : Symbol} (h : p.yield? t i = some a) :
    p.isWellFormed = true ∧ p.nodeKind = t.kind i ∧ a.span = t.span i ∧ a.container = none := by
  rw [yield?] at h
  split at h
  · next hmatch =>
    obtain ⟨n, -, rfl⟩ := Option.map_eq_some_iff.mp h
    exact ⟨isWellFormed_iff.mpr ⟨hmatch.1, hmatch.2.1⟩, hmatch.2.2, rfl, rfl⟩
  · cases h

/-! ### The double loop -/

theorem symbolsAt_byKind (patterns : List Pattern) (t : Tree) (i : Nat) :
    symbolsAt (byKind patterns) t i = patterns.filterMap (yield? t i) := by
  rw [symbolsAt_eq, getD_byKind, ofKind, List.filterMap_filter]
  congr 1
  funext p
  exact (yield?_eq t i p).symm

/-- Without groups no node has a symbol, so there was no need to look. -/
theorem extract_eq (t : Tree) (patterns : List Pattern) :
    extract t patterns = Symbol.finish (t.indices.flatMap fun i => patterns.filterMap (yield? t i)) := by
  simp only [← symbolsAt_byKind]
  rw [extract]
  split
  · next hempty =>
    have hnone : ∀ i ∈ t.indices, symbolsAt (byKind patterns) t i = [] := by
      intro i _
      rw [symbolsAt_eq, Std.TreeMap.getD_of_isEmpty hempty, List.filterMap_nil]
    rw [List.flatMap_eq_nil_iff.mpr hnone, Symbol.finish, Symbol.sorted, List.mergeSort_nil]
    rfl
  · rfl

theorem extract_eq_finish (h : t.Linked) (hsize : 0 < t.size) (patterns : List Pattern) :
    extract t patterns = Symbol.finish (doubleLoop t patterns) := by
  rw [extract_eq, doubleLoop, h.preorder_unfold_root hsize]

theorem container_of_mem_doubleLoop {a : Symbol} (ha : a ∈ doubleLoop t patterns) : a.container = none := by
  obtain ⟨i, -, hmem⟩ := List.mem_flatMap.mp ha
  obtain ⟨p, -, hyield⟩ := List.mem_filterMap.mp hmem
  exact (of_yield? hyield).2.2.2

/-- Only the well-formed patterns of each kind matter, and only their order among themselves. -/
theorem extract_congr (t : Tree) (hsame : ∀ kind, ofKind kind other = ofKind kind patterns) :
    extract t other = extract t patterns := by
  have hnode : ∀ i, other.filterMap (yield? t i) = patterns.filterMap (yield? t i) := by
    intro i
    rw [← symbolsAt_byKind, ← symbolsAt_byKind, symbolsAt_eq, symbolsAt_eq, getD_byKind, getD_byKind, hsame]
  simp only [extract_eq, hnode]

/-- **Extraction is a double loop.** Take any tree that some events build, and any list of patterns. Try every
pattern on every node, node by node in pre-order and for each node pattern by pattern. Put the symbols in the
order of their starts, where those that start together stay as they were found; there is exactly one such list.
Drop every symbol that equals the one before it, and assign containers. This is what extraction gives. So
patterns that are not well-formed may be added or left out anywhere, and the patterns may be rearranged in any
way that keeps the order among those of each kind. -/
theorem extract_eq_double_loop {grammar : String} {source : Text} {events : List Event} {t : Tree}
    (hbuild : Tree.build grammar source events = .ok t) (patterns : List Pattern) :
    (∃ ordered, (∀ l, Symbol.StablySorts (doubleLoop t patterns) l ↔ l = ordered) ∧
      extract t patterns = Symbol.assignContainers (ordered.destutter (· ≠ ·))) ∧
    (∀ other, other.filter isWellFormed = patterns.filter isWellFormed → extract t other = extract t patterns) ∧
    ∀ other : List Pattern,
      (∀ kind, (other.filter fun p => p.nodeKind = kind) = patterns.filter fun p => p.nodeKind = kind) →
        extract t other = extract t patterns := by
  refine ⟨⟨Symbol.sorted (doubleLoop t patterns), fun l => Symbol.stablySorts_iff, ?_⟩, ?_, ?_⟩
  · rw [extract_eq_finish (Tree.linked_of_build hbuild) (Tree.size_pos_of_build hbuild),
      Symbol.finish_eq (Symbol.stablySorts_sorted _)]
  · intro other hsame
    refine extract_congr t fun kind => ?_
    rw [ofKind_eq, ofKind_eq, List.filter_comm, hsame, List.filter_comm]
  · intro other hsame
    refine extract_congr t fun kind => ?_
    rw [ofKind_eq, ofKind_eq, hsame]

/-- The last definition comes first in the tree, and the file is named after it, where a blank in front of the name is
dropped and two others become one. It does not matter that the patterns change places, or that two others are listed
that match nothing. -/
theorem extract_eq_double_loop_last_comes_first :
    let spec (kind : String) (field : Option String) (start stop : Nat) : NodeSpec :=
      ⟨kind, ⟨start, stop⟩, true, false, field, none⟩
    let events : List Event :=
      [.enter (spec "file" none 0 7), .enter (spec "def" none 2 7), .leaf (spec "id" (some "name") 3 4), .leave,
        .enter (spec "def" none 0 2), .leaf (spec "id" (some "name") 0 1), .leave, .leave]
    let definitions : Pattern := ⟨"def", .field "name", .function⟩
    let files : Pattern := ⟨"file", .child "def", .block⟩
    ∃ t, Tree.build "g" ['a', '1', ' ', 'b', ' ', '\t', '2'] events = .ok t ∧
      extract t [definitions, files] =
        [⟨['b', ' ', '2'], ⟨0, 7⟩, ⟨2, 7⟩, .block, none⟩,
          ⟨['a'], ⟨0, 2⟩, ⟨0, 1⟩, .function, some ['b', ' ', '2']⟩,
          ⟨['b'], ⟨2, 7⟩, ⟨3, 4⟩, .function, some ['b', ' ', '2']⟩] ∧
      extract t [files, definitions] = extract t [definitions, files] ∧
      extract t [⟨"", .field "name", .call⟩, definitions, ⟨"file", .child "", .call⟩, files] =
        extract t [definitions, files] := by
  intro spec events definitions files
  let file : Symbol := ⟨['b', ' ', '2'], ⟨0, 7⟩, ⟨2, 7⟩, .block, none⟩
  let first : Symbol := ⟨['a'], ⟨0, 2⟩, ⟨0, 1⟩, .function, none⟩
  let last : Symbol := ⟨['b'], ⟨2, 7⟩, ⟨3, 4⟩, .function, none⟩
  obtain ⟨t, hbuild, hloop⟩ : ∃ t, Tree.build "g" ['a', '1', ' ', 'b', ' ', '\t', '2'] events = .ok t ∧
      doubleLoop t [definitions, files] = [file, last, first] :=
    Tree.exists_build_of_any (by decide +kernel)
  obtain ⟨⟨ordered, hordered, hextract⟩, hformed, hkinds⟩ :=
    extract_eq_double_loop hbuild [definitions, files]
  have hsorts : Symbol.StablySorts [file, last, first] [file, first, last] := by
    refine ⟨by decide, fun start => ?_⟩
    by_cases hzero : 0 = start
    · subst hzero
      rfl
    · by_cases htwo : 2 = start
      · subst htwo
        rfl
      · simp [Symbol.startingAt, file, first, last, hzero, htwo]
  rw [hloop] at hordered
  rw [← (hordered _).mp hsorts] at hextract
  refine ⟨t, hbuild, hextract, hkinds _ fun kind => ?_, hformed _ (by decide)⟩
  by_cases hdef : "def" = kind
  · subst hdef
    decide
  · by_cases hfile : "file" = kind
    · subst hfile
      decide
    · simp [definitions, files, hdef, hfile]

end Pattern

namespace Symbol

open Pattern

/-- **When finished lists have no repeats.** Take any symbols without containers. The finished list is in the
order of the starts, it has the same symbols, and no symbol equals the one before it, containers aside. It has
no symbol twice exactly if, among the given symbols that start at the same byte, no other one stands between two
that are equal. The same holds of what extraction finds in a tree. -/
theorem finish_without_repeats_iff {symbols : List Symbol} (hbare : ∀ a ∈ symbols, a.container = none) :
    InOrder (finish symbols) ∧
    (∀ a, a ∈ (finish symbols).map bare ↔ a ∈ symbols) ∧
    ((finish symbols).map bare).IsChain (· ≠ ·) ∧
    (((finish symbols).map bare).Nodup ↔ EqualTogether symbols) ∧
    ∀ {grammar : String} {source : Text} {events : List Event} {t : Tree},
      Tree.build grammar source events = .ok t → ∀ patterns : List Pattern,
        ((extract t patterns).map bare).Nodup ↔ EqualTogether (doubleLoop t patterns) := by
  have hsorted := stablySorts_sorted symbols
  have hfinished := map_bare_finish hsorted hbare
  rw [hfinished]
  refine ⟨?_, ?_, List.isChain_destutter _ _, hsorted.nodup_destutter_iff, ?_⟩
  · rw [finish_eq hsorted]
    exact inOrder_assignContainers (hsorted.inOrder.sublist (List.destutter_sublist _ _))
  · exact fun a => mem_destutter_ne.trans hsorted.mem_iff
  · intro grammar source events t hbuild patterns
    have hloop := stablySorts_sorted (doubleLoop t patterns)
    rw [extract_eq_finish (Tree.linked_of_build hbuild) (Tree.size_pos_of_build hbuild),
      map_bare_finish hloop fun a ha => container_of_mem_doubleLoop ha, hloop.nodup_destutter_iff]

/-- The symbol between the two `b` starts elsewhere, so that they meet once the symbols are in order. In the tree
a pattern is listed twice in a row. -/
theorem finish_without_repeats_iff_starts_apart :
    let symbol (name : Char) (start : Nat) : Symbol :=
      ⟨[name], ⟨start, start + 1⟩, ⟨start, start + 1⟩, .function, none⟩
    let symbols := [symbol 'b' 3, symbol 'a' 0, symbol 'b' 3]
    let spec (kind : String) (start stop : Nat) : NodeSpec := ⟨kind, ⟨start, stop⟩, true, false, some "name", none⟩
    let events : List Event := [.enter (spec "def" 0 2), .leaf (spec "id" 0 1), .leave]
    let p (kind : SymbolKind) : Pattern := ⟨"def", .field "name", kind⟩
    (∀ a ∈ symbols, a.container = none) ∧ EqualTogether symbols ∧
      InOrder (finish symbols) ∧ ((finish symbols).map bare).Nodup ∧ symbol 'b' 3 ∈ (finish symbols).map bare ∧
      ∃ t, Tree.build "g" ['a', 'b'] events = .ok t ∧
        ((extract t [p .function, p .function, p .classType]).map bare).Nodup := by
  intro symbol symbols spec events p
  have hbare : ∀ a ∈ symbols, a.container = none := by decide
  have htogether : EqualTogether symbols := by decide
  obtain ⟨hinOrder, hmem, -, hnodup, hextract⟩ := finish_without_repeats_iff hbare
  obtain ⟨t, hbuild, hloop⟩ : ∃ t, Tree.build "g" ['a', 'b'] events = .ok t ∧
      EqualTogether (doubleLoop t [p .function, p .function, p .classType]) :=
    Tree.exists_build_of_any (by decide +kernel)
  exact ⟨hbare, htogether, hinOrder, hnodup.mpr htogether, (hmem _).mpr (by decide), t, hbuild,
    (hextract hbuild _).mpr hloop⟩

/-- **Repeats that are parted stay.** A class stands between two equal functions and starts with them, and all three
are reported. It takes only one definition and a pattern that is listed again after another one. -/
theorem finish_keeps_parted_repeat :
    let symbol (kind : SymbolKind) : Symbol := ⟨['a'], ⟨0, 2⟩, ⟨0, 1⟩, kind, none⟩
    let symbols := [symbol .function, symbol .classType, symbol .function]
    let spec (kind : String) (start stop : Nat) : NodeSpec := ⟨kind, ⟨start, stop⟩, true, false, some "name", none⟩
    let events : List Event := [.enter (spec "def" 0 2), .leaf (spec "id" 0 1), .leave]
    let p (kind : SymbolKind) : Pattern := ⟨"def", .field "name", kind⟩
    (∀ a ∈ symbols, a.container = none) ∧ (finish symbols).map bare = symbols ∧ ¬symbols.Nodup ∧
      ∃ t, Tree.build "g" ['a', 'b'] events = .ok t ∧
        (extract t [p .function, p .classType, p .function]).map bare = symbols := by
  intro symbol symbols spec events p
  have hbare : ∀ a ∈ symbols, a.container = none := by decide
  have hfinished : (finish symbols).map bare = symbols :=
    map_bare_finish (stablySorts_of_inOrder (by decide)) hbare
  obtain ⟨t, hbuild, hloop⟩ : ∃ t, Tree.build "g" ['a', 'b'] events = .ok t ∧
      doubleLoop t [p .function, p .classType, p .function] = symbols :=
    Tree.exists_build_of_any (by decide +kernel)
  refine ⟨hbare, hfinished, by decide, t, hbuild, ?_⟩
  rw [extract_eq_finish (Tree.linked_of_build hbuild) (Tree.size_pos_of_build hbuild), hloop, hfinished]

end Symbol

end LiveSyntax
