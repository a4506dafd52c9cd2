import LiveSyntax.Proofs.Builder
import LiveSyntax.Proofs.Positions

/-!
# Ordered trees and their node tables

A node table is a flat form of an ordered tree: nodes in pre-order, each with its parent, its depth
and the end of its subtree. This file starts from the other side, the ordered tree itself, and shows
that nothing is lost on the way. `OrderedTree.events` is the word of events that describes a tree, with
a node opened before and closed after its children. `OrderedTree.layout` is the list of nodes that the
tree should become, said without any builder. Building the events gives exactly that list, and
following the links of the table gives the tree again.

## Main definitions

- `OrderedTree`, `OrderedTree.preorder`, `OrderedTree.events`: trees, their labels, their events.
- `OrderedTree.layout`: the nodes of a tree from an index on.
- `OrderedTree.completed`: the tree with all positions filled in and the root widened.
- `Arena.unfold`: the ordered tree of indices below a node, read through the links of the table.

## Main results

- `OrderedTree.grows_events`: what the events of a tree do to any builder that has room for them.
- `Arena.unfoldUpTo_of_links`: the links of a laid out tree lead through it in pre-order.
- `Tree.build_faithful`: building the events of a tree and reading the result back gives the tree.
-/

namespace LiveSyntax

/-- A tree whose children are in order. -/
inductive OrderedTree (α : Type) where
  /-- A node with its children. -/
  | node (label : α) (children : List (OrderedTree α))

namespace OrderedTree

variable {α β : Type}

mutual

/-- The number of nodes. -/
def size : OrderedTree α → Nat
  | .node _ children => sizeAll children + 1

/-- The number of nodes of some trees. -/
def sizeAll : List (OrderedTree α) → Nat
  | [] => 0
  | tree :: rest => tree.size + sizeAll rest

end

mutual

/-- The labels in pre-order: a node before its children, the children in order. -/
def preorder : OrderedTree α → List α
  | .node label children => label :: preorderAll children

/-- The labels of some trees, one tree after the other. -/
def preorderAll : List (OrderedTree α) → List α
  | [] => []
  | tree :: rest => tree.preorder ++ preorderAll rest

end

mutual

/-- The tree with other labels. -/
def map (f : α → β) : OrderedTree α → OrderedTree β
  | .node label children => .node (f label) (mapAll f children)

/-- Some trees with other labels. -/
def mapAll (f : α → β) : List (OrderedTree α) → List (OrderedTree β)
  | [] => []
  | tree :: rest => tree.map f :: mapAll f rest

end

/-- The tree with another label at the top. -/
def mapRoot (f : α → α) : OrderedTree α → OrderedTree α
  | .node label children => .node (f label) children

mutual

/-- The events of a tree: each node opens before its children and closes after them. -/
def events : OrderedTree NodeSpec → List Event
  | .node spec children => .enter spec :: (eventsAll children ++ [.leave])

/-- The events of some trees, one tree after the other. -/
def eventsAll : List (OrderedTree NodeSpec) → List Event
  | [] => []
  | tree :: rest => tree.events ++ eventsAll rest

end

end OrderedTree

/-- The positions of both ends of a node: those told, or else the ones of its span in the source. -/
def NodeSpec.positionsIn (source : Text) (spec : NodeSpec) : Position × Position :=
  spec.positions.getD
    (Position.atByte source spec.span.start, Position.atByte source spec.span.stop)

/-- A description with its positions filled in. -/
def NodeSpec.located (source : Text) (spec : NodeSpec) : NodeSpec :=
  { spec with positions := some (spec.positionsIn source) }

/-- A description of a node that spans the whole source. -/
def NodeSpec.widened (source : Text) (spec : NodeSpec) : NodeSpec :=
  { spec with
    span := ⟨0, source.byteCount⟩
    positions := some (⟨0, 0⟩, Position.atByte source source.byteCount) }

/-- The node that a description becomes at a place of the table. -/
def NodeSpec.nodeAt (source : Text) (parent : Option Nat) (depth subtreeEnd : Nat)
    (spec : NodeSpec) : Node :=
  { kind := spec.kind
    field := spec.field
    named := spec.named
    error := spec.error
    span := spec.span
    start := (spec.positionsIn source).1
    stop := (spec.positionsIn source).2
    parent
    depth
    subtreeEnd }

/-- What a node says about itself, apart from its place in the table. -/
def Node.spec (n : Node) : NodeSpec :=
  { kind := n.kind
    span := n.span
    named := n.named
    error := n.error
    field := n.field
    positions := some (n.start, n.stop) }

namespace OrderedTree

/-- The tree with every position filled in and the root widened to the whole source. -/
def completed (source : Text) (tree : OrderedTree NodeSpec) : OrderedTree NodeSpec :=
  (tree.map (·.located source)).mapRoot (·.widened source)

mutual

/-- The nodes of a tree from index `base` on, in pre-order. -/
def layout (source : Text) (parent : Option Nat) (depth base : Nat) :
    OrderedTree NodeSpec → List Node
  | .node spec children =>
    spec.nodeAt source parent depth (base + 1 + sizeAll children) ::
      layoutAll source base (depth + 1) (base + 1) children

/-- The nodes of some siblings from index `base` on. -/
def layoutAll (source : Text) (parent depth base : Nat) : List (OrderedTree NodeSpec) → List Node
  | [] => []
  | tree :: rest =>
    tree.layout source (some parent) depth base ++
      layoutAll source parent depth (base + tree.size) rest

end

mutual

theorem length_layout (source : Text) (parent : Option Nat) (depth base : Nat)
    (tree : OrderedTree NodeSpec) : (tree.layout source parent depth base).length = tree.size := by
  match tree with
  | .node spec children =>
    rw [layout, size, List.length_cons, length_layoutAll]

theorem length_layoutAll (source : Text) (parent depth base : Nat)
    (trees : List (OrderedTree NodeSpec)) :
    (layoutAll source parent depth base trees).length = sizeAll trees := by
  match trees with
  | [] => rfl
  | tree :: rest => rw [layoutAll, sizeAll, List.length_append, length_layout, length_layoutAll]

end

mutual

/-- The nodes of a tree say what its descriptions say, in pre-order. -/
theorem map_spec_layout (source : Text) (parent : Option Nat) (depth base : Nat)
    (tree : OrderedTree NodeSpec) :
    (tree.layout source parent depth base).map Node.spec =
      (tree.map (·.located source)).preorder := by
  match tree with
  | .node spec children =>
    rw [layout, map, preorder, List.map_cons, map_spec_layoutAll]
    rfl

theorem map_spec_layoutAll (source : Text) (parent depth base : Nat)
    (trees : List (OrderedTree NodeSpec)) :
    (layoutAll source parent depth base trees).map Node.spec =
      preorderAll (mapAll (·.located source) trees) := by
  match trees with
  | [] => rfl
  | tree :: rest =>
    rw [layoutAll, mapAll, preorderAll, List.map_append, map_spec_layout, map_spec_layoutAll]

end

theorem size_pos {α : Type} (tree : OrderedTree α) : 0 < tree.size := by
  cases tree with
  | node label children =>
    rw [size]
    exact Nat.succ_pos _

end OrderedTree

/-! ### Building -/

namespace Builder

/-- One builder has grown into another: `added` came after its nodes, the same nodes are open as
before, and no fault was found. -/
structure Grows (b d : Builder) (added : List Node) : Prop where
  named : d.Named
  fault : d.fault = none
  source : d.source = b.source
  opened : d.opened = b.opened
  nodes : d.nodes = b.nodes ++ added

theorem Grows.trans {b d e : Builder} {added more : List Node} (h : b.Grows d added)
    (h' : d.Grows e more) : b.Grows e (added ++ more) where
  named := h'.named
  fault := h'.fault
  source := h'.source.trans h.source
  opened := h'.opened.trans h.opened
  nodes := by rw [h'.nodes, h.nodes, List.append_assoc]

theorem nextNode_eq (b : Builder) (spec : NodeSpec) :
    b.nextNode spec =
      spec.nodeAt b.source b.opened.head? b.opened.length (b.nodes.length + 1) := by
  have hpositions : b.positionsOf spec = spec.positionsIn b.source := by
    unfold positionsOf NodeSpec.positionsIn
    rw [Text.positionOfByte_eq_atByte, Text.positionOfByte_eq_atByte]
  unfold nextNode NodeSpec.nodeAt
  rw [hpositions]

/-- A node may open below an open node, or first of all, as long as there is room. -/
theorem fault_enter {b : Builder} (spec : NodeSpec) (hfault : b.fault = none)
    (hplace : b.opened ≠ [] ∨ b.nodes = []) (hroom : b.nodes.length < maxNodes) :
    (b.enter spec).fault = none := by
  have hsize : ¬maxNodes ≤ b.cells.size := by
    rw [← length_nodes]
    omega
  have hroot : (b.opened.isEmpty && !b.cells.isEmpty) = false := by
    rcases hplace with hopened | hnodes
    · simp [hopened]
    · have hcells : b.cells.size = 0 := by rw [← length_nodes, hnodes, List.length_nil]
      simp [Array.size_eq_zero_iff.mp hcells]
  change b.faultOnEnter = none
  rw [faultOnEnter, if_neg hsize, hroot, if_neg Bool.false_ne_true, hfault]

theorem modify_length_append {α : Type} (before after : List α) (x : α) (f : α → α) :
    (before ++ x :: after).modify before.length f = before ++ f x :: after := by
  induction before with
  | nil => rfl
  | cons y before ih =>
    rw [List.cons_append, List.length_cons, List.modify_succ_cons, ih, List.cons_append]

/-- A node that opens, grows and closes ends up with the end of its subtree. -/
theorem Grows.leave {b d : Builder} {spec : NodeSpec} {added : List Node} (hnamed : b.Named)
    (h : (b.enter spec).Grows d added) :
    b.Grows d.leave
      (spec.nodeAt b.source b.opened.head? b.opened.length (b.nodes.length + 1 + added.length) ::
        added) := by
  have hopened : d.opened = b.nodes.length :: b.opened := h.opened.trans (b.opened_enter spec)
  have hnodes : d.nodes = b.nodes ++ b.nextNode spec :: added := by
    rw [h.nodes, nodes_enter hnamed, List.append_assoc, List.singleton_append]
  have hlength : d.nodes.length = b.nodes.length + 1 + added.length := by
    rw [hnodes, List.length_append, List.length_cons]
    omega
  refine ⟨named_leave hopened h.named, ?_, ?_, ?_, ?_⟩
  · rw [leave_eq hopened]
    exact h.fault
  · rw [leave_eq hopened]
    exact h.source
  · rw [leave_eq hopened]
  · rw [nodes_leave hopened, hnodes, modify_length_append, nextNode_eq]
    unfold closed
    rw [hlength]
    rfl

end Builder

namespace OrderedTree

open Builder (Grows maxNodes)

mutual

/-- **The events of a tree** add its layout to any builder that has room for it. -/
theorem grows_events {b : Builder} (tree : OrderedTree NodeSpec) (hnamed : b.Named)
    (hfault : b.fault = none) (hplace : b.opened ≠ [] ∨ b.nodes = [])
    (hroom : b.nodes.length + tree.size ≤ maxNodes) :
    b.Grows (tree.events.foldl Builder.step b)
      (tree.layout b.source b.opened.head? b.opened.length b.nodes.length) := by
  match tree with
  | .node spec children =>
    rw [size] at hroom
    have hlength : (b.enter spec).nodes.length = b.nodes.length + 1 := by
      rw [Builder.nodes_enter hnamed, List.length_append, List.length_singleton]
    -- The children grow on the builder in which this node is the innermost open one.
    have hchildren := grows_eventsAll (b := b.enter spec) children (Builder.named_enter hnamed spec)
      (Builder.fault_enter spec hfault hplace (by omega)) (b.opened_enter spec)
      (by rw [hlength]; omega)
    rw [hlength, Builder.source_enter, Builder.opened_enter, List.length_cons] at hchildren
    rw [events, List.foldl_cons, List.foldl_append, layout,
      ← length_layoutAll b.source b.nodes.length (b.opened.length + 1) (b.nodes.length + 1) children]
    exact hchildren.leave hnamed

theorem grows_eventsAll {b : Builder} {parent : Nat} {outer : List Nat}
    (trees : List (OrderedTree NodeSpec)) (hnamed : b.Named) (hfault : b.fault = none)
    (hopened : b.opened = parent :: outer) (hroom : b.nodes.length + sizeAll trees ≤ maxNodes) :
    b.Grows ((eventsAll trees).foldl Builder.step b)
      (layoutAll b.source parent b.opened.length b.nodes.length trees) := by
  match trees with
  | [] => exact ⟨hnamed, hfault, rfl, rfl, (List.append_nil _).symm⟩
  | tree :: rest =>
    rw [sizeAll] at hroom
    -- A sibling leaves the same nodes open, so the next one has the same parent and depth.
    have hplace : b.opened ≠ [] := by simp [hopened]
    have hfirst := grows_events tree hnamed hfault (.inl hplace) (by omega)
    have hlength : (tree.events.foldl Builder.step b).nodes.length = b.nodes.length + tree.size := by
      rw [hfirst.nodes, List.length_append, length_layout]
    have hrest := grows_eventsAll rest hfirst.named hfirst.fault (hfirst.opened.trans hopened)
      (by rw [hlength]; omega)
    rw [hlength, hfirst.source, hfirst.opened] at hrest
    rw [eventsAll, List.foldl_append, layoutAll]
    rw [hopened, List.head?_cons, ← hopened] at hfirst
    exact hfirst.trans hrest

end

end OrderedTree

/-! ### Reading back -/

namespace Arena

/-- The tree of indices below a node, as far as `fuel` levels down. -/
def unfoldUpTo (t : Arena) : (fuel : Nat) → Nat → OrderedTree Nat
  | 0, i => .node i []
  | fuel + 1, i => .node i ((t.children i).map (unfoldUpTo t fuel))

/-- The tree of indices below a node. No tree has more levels than nodes. -/
def unfold (t : Arena) (i : Nat) : OrderedTree Nat :=
  t.unfoldUpTo t.size i

/-- What a node says about itself. -/
def specOf (t : Arena) (i : Nat) : NodeSpec :=
  { kind := t.kind i
    span := t.span i
    named := (t.node i).named
    error := (t.node i).error
    field := t.field? i
    positions := some ((t.node i).start, (t.node i).stop) }

end Arena

namespace OrderedTree

variable {α β : Type}

mutual

/-- The tree with its nodes numbered in pre-order, from `base` on. -/
def numbered (base : Nat) : OrderedTree α → OrderedTree Nat
  | .node _ children => .node base (numberedAll (base + 1) children)

/-- Some trees with their nodes numbered one tree after the other. -/
def numberedAll (base : Nat) : List (OrderedTree α) → List (OrderedTree Nat)
  | [] => []
  | tree :: rest => tree.numbered base :: numberedAll (base + tree.size) rest

end

/-- The numbers of the topmost nodes of some trees. -/
def tops (base : Nat) : List (OrderedTree α) → List Nat
  | [] => []
  | tree :: rest => base :: tops (base + tree.size) rest

mutual

theorem preorder_numbered (base : Nat) (tree : OrderedTree α) :
    (tree.numbered base).preorder = List.range' base tree.size := by
  match tree with
  | .node label children => rw [numbered, preorder, size, preorderAll_numberedAll, List.range'_succ]

theorem preorderAll_numberedAll (base : Nat) (trees : List (OrderedTree α)) :
    preorderAll (numberedAll base trees) = List.range' base (sizeAll trees) := by
  match trees with
  | [] => rfl
  | tree :: rest =>
    rw [numberedAll, preorderAll, sizeAll, preorder_numbered, preorderAll_numberedAll,
      ← List.range'_append_1]

end

mutual

theorem length_preorder (tree : OrderedTree α) : tree.preorder.length = tree.size := by
  match tree with
  | .node label children => rw [preorder, size, List.length_cons, length_preorderAll]

theorem length_preorderAll (trees : List (OrderedTree α)) :
    (preorderAll trees).length = sizeAll trees := by
  match trees with
  | [] => rfl
  | tree :: rest =>
    rw [preorderAll, sizeAll, List.length_append, length_preorder, length_preorderAll]

end

mutual

theorem size_map (f : α → β) (tree : OrderedTree α) : (tree.map f).size = tree.size := by
  match tree with
  | .node label children => rw [map, size, size, sizeAll_mapAll]

theorem sizeAll_mapAll (f : α → β) (trees : List (OrderedTree α)) :
    sizeAll (mapAll f trees) = sizeAll trees := by
  match trees with
  | [] => rfl
  | tree :: rest => rw [mapAll, sizeAll, sizeAll, size_map, sizeAll_mapAll]

end

mutual

theorem preorder_map (f : α → β) (tree : OrderedTree α) :
    (tree.map f).preorder = tree.preorder.map f := by
  match tree with
  | .node label children => rw [map, preorder, preorder, List.map_cons, preorderAll_mapAll]

theorem preorderAll_mapAll (f : α → β) (trees : List (OrderedTree α)) :
    preorderAll (mapAll f trees) = (preorderAll trees).map f := by
  match trees with
  | [] => rfl
  | tree :: rest =>
    rw [mapAll, preorderAll, preorderAll, List.map_append, preorder_map, preorderAll_mapAll]

end

mutual

theorem numbered_map (f : α → β) (base : Nat) (tree : OrderedTree α) :
    (tree.map f).numbered base = tree.numbered base := by
  match tree with
  | .node label children => rw [map, numbered, numbered, numberedAll_mapAll]

theorem numberedAll_mapAll (f : α → β) (base : Nat) (trees : List (OrderedTree α)) :
    numberedAll base (mapAll f trees) = numberedAll base trees := by
  match trees with
  | [] => rfl
  | tree :: rest =>
    rw [mapAll, numberedAll, numberedAll, numbered_map, numberedAll_mapAll, size_map]

end

theorem numbered_mapRoot (f : α → α) (base : Nat) (tree : OrderedTree α) :
    (tree.mapRoot f).numbered base = tree.numbered base := by
  cases tree with
  | node label children => rfl

theorem size_mapRoot (f : α → α) (tree : OrderedTree α) : (tree.mapRoot f).size = tree.size := by
  cases tree with
  | node label children => rfl

theorem numbered_completed (source : Text) (base : Nat) (tree : OrderedTree NodeSpec) :
    (tree.completed source).numbered base = tree.numbered base := by
  rw [completed, numbered_mapRoot, numbered_map]

theorem getElem?_preorder_completed (source : Text) (tree : OrderedTree NodeSpec) (i : Nat) :
    (tree.completed source).preorder[i]? = tree.preorder[i]?.map fun spec =>
      if i = Arena.root then (spec.located source).widened source else spec.located source := by
  cases tree with
  | node spec children =>
    rw [completed, map, mapRoot, preorder, preorderAll_mapAll, preorder]
    cases i with
    | zero => rfl
    | succ i => simp [Arena.root]

mutual

/-- A tree is known from its shape and its labels in pre-order. -/
theorem map_numbered {f : Nat → α} (base : Nat) (tree : OrderedTree α)
    (h : (List.range' base tree.size).map f = tree.preorder) :
    (tree.numbered base).map f = tree := by
  match tree with
  | .node label children =>
    rw [size, preorder, List.range'_succ, List.map_cons, List.cons.injEq] at h
    rw [numbered, map, h.1, mapAll_numberedAll (base + 1) children h.2]

theorem mapAll_numberedAll {f : Nat → α} (base : Nat) (trees : List (OrderedTree α))
    (h : (List.range' base (sizeAll trees)).map f = preorderAll trees) :
    mapAll f (numberedAll base trees) = trees := by
  match trees with
  | [] => rfl
  | tree :: rest =>
    rw [sizeAll, preorderAll, ← List.range'_append_1, List.map_append] at h
    have hlength : ((List.range' base tree.size).map f).length = tree.preorder.length := by
      rw [List.length_map, List.length_range', length_preorder]
    obtain ⟨hfirst, hrest⟩ := List.append_inj h hlength
    rw [numberedAll, mapAll, map_numbered base tree hfirst, mapAll_numberedAll _ rest hrest]

end

end OrderedTree

namespace Arena

open OrderedTree

variable {t : Arena}

/-- From index `base` on, the subtrees of the table end where those of `nodes` do. -/
def Links (t : Arena) (base : Nat) (nodes : List Node) : Prop :=
  ∀ (k : Nat) (n : Node), nodes[k]? = some n → t.subtreeEnd (base + k) = n.subtreeEnd

theorem Links.append {base : Nat} {first rest : List Node} (h : t.Links base (first ++ rest)) :
    t.Links base first ∧ t.Links (base + first.length) rest := by
  constructor
  · intro k n hn
    have hk : k < first.length := (List.getElem?_eq_some_iff.mp hn).1
    exact h k n ((List.getElem?_append_left hk).trans hn)
  · intro k n hn
    rw [Nat.add_assoc]
    refine h (first.length + k) n ?_
    rw [List.getElem?_append_right (Nat.le_add_right _ _), Nat.add_sub_cancel_left]
    exact hn

theorem Links.cons {base : Nat} {n : Node} {rest : List Node} (h : t.Links base (n :: rest)) :
    t.subtreeEnd base = n.subtreeEnd ∧ t.Links (base + 1) rest := by
  have happend : t.Links base ([n] ++ rest) := h
  exact ⟨h 0 n rfl, happend.append.2⟩

theorem subtreeEnd_of_links {source : Text} {parent : Option Nat} {depth base : Nat}
    {tree : OrderedTree NodeSpec} (h : t.Links base (tree.layout source parent depth base)) :
    t.subtreeEnd base = base + tree.size := by
  cases tree with
  | node spec children =>
    rw [layout] at h
    rw [h.cons.1, OrderedTree.size, Nat.add_comm (sizeAll children), ← Nat.add_assoc]
    rfl

/-- Stepping from the end of one subtree to the next meets each sibling once. -/
theorem siblingsUpTo_of_links {source : Text} {parent depth base fuel : Nat}
    {trees : List (OrderedTree NodeSpec)}
    (h : t.Links base (layoutAll source parent depth base trees)) (hfuel : sizeAll trees ≤ fuel) :
    t.siblingsUpTo fuel base (base + sizeAll trees) = tops base trees := by
  induction trees generalizing base fuel with
  | nil =>
    rw [sizeAll, tops]
    cases fuel with
    | zero => rfl
    | succ fuel => rw [siblingsUpTo, if_neg (by omega)]
  | cons tree rest ih =>
    rw [layoutAll] at h
    obtain ⟨htree, hrest⟩ := h.append
    rw [length_layout] at hrest
    have hpos := tree.size_pos
    rw [sizeAll] at hfuel ⊢
    -- Each sibling costs one unit of fuel and takes up at least one index.
    obtain ⟨fuel, rfl⟩ : ∃ k, fuel = k + 1 := ⟨fuel - 1, by omega⟩
    rw [siblingsUpTo, if_pos (by omega), subtreeEnd_of_links htree, tops, ← Nat.add_assoc,
      ih hrest (by omega)]

/-- The children of a laid out node are the topmost nodes of its subtrees. -/
theorem children_of_links {source : Text} {parent : Option Nat} {depth base : Nat}
    {spec : NodeSpec} {children : List (OrderedTree NodeSpec)}
    (h : t.Links base ((OrderedTree.node spec children).layout source parent depth base)) :
    t.children base = tops (base + 1) children := by
  have hend := subtreeEnd_of_links h
  rw [layout] at h
  rw [OrderedTree.size] at hend
  have hstop : base + (sizeAll children + 1) = base + 1 + sizeAll children := by omega
  rw [Arena.children, hend, hstop, Nat.add_sub_cancel_left]
  exact siblingsUpTo_of_links h.cons.2 (Nat.le_refl _)

mutual

/-- **The links of a laid out tree** lead through all of it, in pre-order. -/
theorem unfoldUpTo_of_links {source : Text} {parent : Option Nat} {depth base fuel : Nat}
    (tree : OrderedTree NodeSpec) (h : t.Links base (tree.layout source parent depth base))
    (hfuel : tree.size ≤ fuel) : t.unfoldUpTo fuel base = tree.numbered base := by
  match tree with
  | .node spec children =>
    rw [OrderedTree.size] at hfuel
    obtain ⟨fuel, rfl⟩ : ∃ k, fuel = k + 1 := ⟨fuel - 1, by omega⟩
    rw [unfoldUpTo, children_of_links h, numbered]
    rw [layout] at h
    rw [map_unfoldUpTo_of_links children h.cons.2 (by omega)]

theorem map_unfoldUpTo_of_links {source : Text} {parent depth base fuel : Nat}
    (trees : List (OrderedTree NodeSpec))
    (h : t.Links base (layoutAll source parent depth base trees)) (hfuel : sizeAll trees ≤ fuel) :
    (tops base trees).map (t.unfoldUpTo fuel) = numberedAll base trees := by
  match trees with
  | [] => rfl
  | tree :: rest =>
    rw [layoutAll] at h
    obtain ⟨htree, hrest⟩ := h.append
    rw [length_layout] at hrest
    rw [sizeAll] at hfuel
    rw [tops, numberedAll, List.map_cons, unfoldUpTo_of_links tree htree (by omega),
      map_unfoldUpTo_of_links rest hrest (by omega)]

end

/-- Reading all indices gives the nodes in their order. -/
theorem map_node_indices (t : Arena) : t.indices.map t.node = t.nodes.toList := by
  refine List.ext_getElem? fun i => ?_
  rw [List.getElem?_map, indices, ← length_nodes]
  by_cases hi : i < t.nodes.toList.length
  · rw [List.getElem?_range hi, Option.map_some, node_eq_getElem?, List.getElem?_eq_getElem hi,
      Option.getD_some]
  · rw [List.getElem?_eq_none (by rw [List.length_range]; omega), Option.map_none,
      List.getElem?_eq_none (by omega)]

end Arena

/-! ### Faithfulness -/

namespace Tree

open OrderedTree

/-- A node widened to the whole source. -/
def widenedNode (source : Text) (n : Node) : Node :=
  ⟨Builder.rootShape source n.toNodeShape, n.kind, n.field⟩

/-- The nodes of a syntax tree are the layout of an ordered tree, with the root widened. -/
def Holds (t : Tree) (tree : OrderedTree NodeSpec) : Prop :=
  t.nodes.toList = (tree.layout t.source none 0 0).modify Arena.root (widenedNode t.source)

/-- The events of an ordered tree that is not too large build a syntax tree that holds it. -/
theorem exists_build (grammar : String) (source : Text) (tree : OrderedTree NodeSpec)
    (hroom : tree.size ≤ Builder.maxNodes) :
    ∃ t, Tree.build grammar source tree.events = .ok t ∧ t.Holds tree := by
  have hempty : (Builder.start source).nodes = [] := Builder.nodes_eq_map _
  have hgrows := grows_events tree (Builder.named_start source) rfl (.inr hempty)
    (by rw [hempty, List.length_nil]; omega)
  rw [hempty] at hgrows
  obtain ⟨-, hfault, hsource, hopened, hnodes⟩ := hgrows
  rw [hempty, List.nil_append] at hnodes
  have hsome : (tree.events.foldl Builder.step (Builder.start source)).nodes ≠ [] := by
    rw [hnodes, ← List.length_pos_iff, length_layout]
    exact tree.size_pos
  have hbuild : Tree.build grammar source tree.events = .ok _ :=
    Builder.finish_eq_ok_iff.mpr ⟨hfault, hopened, hsome, rfl⟩
  refine ⟨_, hbuild, ?_⟩
  rw [Holds, Builder.nodes_of_finish hbuild, hnodes, hsource]
  rfl

variable {t : Tree} {tree : OrderedTree NodeSpec}

theorem Holds.size_eq (h : t.Holds tree) : t.size = tree.size := by
  rw [← Arena.length_nodes, h, List.length_modify, length_layout]

theorem Holds.links (h : t.Holds tree) : t.Links Arena.root (tree.layout t.source none 0 0) := by
  intro k n hn
  have hnode : t.node k = if Arena.root = k then widenedNode t.source n else n := by
    rw [Arena.node_eq_getElem?, h, List.getElem?_modify, hn]
    rfl
  rw [Arena.root, Nat.zero_add, Arena.subtreeEnd, hnode]
  split <;> rfl

/-- The nodes of the tree, in the order of their indices, say what the completed descriptions say in
pre-order. -/
theorem Holds.map_specOf_indices (h : t.Holds tree) :
    t.indices.map t.specOf = (tree.completed t.source).preorder := by
  have hspec : t.indices.map t.specOf = t.nodes.toList.map Node.spec := by
    rw [← Arena.map_node_indices, List.map_map]
    rfl
  rw [hspec, h]
  cases tree with
  | node spec children =>
    rw [layout, Arena.root, List.modify_zero_cons, List.map_cons, map_spec_layoutAll, completed, map,
      mapRoot, preorder, widenedNode, Builder.rootShape, Text.positionOfByte_eq_atByte]
    rfl

/-- The node at an index says what the description at that place in pre-order says. -/
theorem Holds.specOf_eq (h : t.Holds tree) {i : Nat} {spec : NodeSpec}
    (hi : tree.preorder[i]? = some spec) :
    t.specOf i = if i = Arena.root then (spec.located t.source).widened t.source
      else spec.located t.source := by
  have hlt : i < t.size := by
    rw [h.size_eq, ← length_preorder]
    exact (List.getElem?_eq_some_iff.mp hi).1
  have hlabels := congrArg (·[i]?) h.map_specOf_indices
  simp only [List.getElem?_map, Arena.indices, List.getElem?_range hlt, getElem?_preorder_completed,
    hi, Option.map_some] at hlabels
  exact Option.some.inj hlabels

/-- **Node tables are faithful.** The events of an ordered tree always give a table, as long as its
nodes can be numbered by words of thirty-two bits. Following the links of the table from the root and
asking each node for what it says gives the tree back, with the positions that were left out filled in
and the root widened to the whole source. The nodes met on the way are all nodes, in the order of their
indices. -/
theorem build_faithful (grammar : String) (source : Text) (tree : OrderedTree NodeSpec)
    (hroom : tree.size ≤ Builder.maxNodes) :
    ∃ t, Tree.build grammar source tree.events = .ok t ∧ t.grammar = grammar ∧ t.source = source ∧
      (t.unfold Arena.root).map t.specOf = tree.completed source ∧
      (t.unfold Arena.root).preorder = t.indices := by
  obtain ⟨t, hbuild, hholds⟩ := exists_build grammar source tree hroom
  obtain ⟨hgrammar, hsource, -⟩ := Tree.build_spec hbuild
  have hsize := hholds.size_eq
  have hunfold : t.unfold Arena.root = tree.numbered Arena.root :=
    Arena.unfoldUpTo_of_links tree hholds.links (Nat.le_of_eq hsize.symm)
  have hindices : t.indices = List.range' Arena.root tree.size := by
    rw [Arena.indices, hsize, List.range_eq_range']
    rfl
  have hlabels := hholds.map_specOf_indices
  rw [hsource] at hlabels
  refine ⟨t, hbuild, hgrammar, hsource, ?_, ?_⟩
  · -- The links give the shape and the order of indices gives the labels.
    rw [hunfold, ← numbered_completed source]
    refine map_numbered Arena.root _ ?_
    rw [← hlabels, hindices, completed, size_mapRoot, size_map]
  · rw [hunfold, preorder_numbered, hindices]

/-- A root that is told too small a span, above a leaf and a branch that goes on in the second row. -/
theorem build_faithful_two_rows :
    let leaf (span : Span) (points : Option (Position × Position)) : OrderedTree NodeSpec :=
      .node ⟨"word", span, true, false, some "item", points⟩ []
    let tree : OrderedTree NodeSpec :=
      .node ⟨"list", ⟨1, 2⟩, true, false, none, none⟩
        [leaf ⟨0, 1⟩ none, .node ⟨"tail", ⟨2, 4⟩, false, true, none, none⟩ [leaf ⟨3, 4⟩ none]]
    tree.size ≤ Builder.maxNodes ∧
    ∃ t, Tree.build "g" ['a', '\n', 'b', 'c'] tree.events = .ok t ∧
      (t.unfold Arena.root).map t.specOf =
        .node ⟨"list", ⟨0, 4⟩, true, false, none, some (⟨0, 0⟩, ⟨1, 2⟩)⟩
          [leaf ⟨0, 1⟩ (some (⟨0, 0⟩, ⟨0, 1⟩)),
            .node ⟨"tail", ⟨2, 4⟩, false, true, none, some (⟨1, 0⟩, ⟨1, 2⟩)⟩
              [leaf ⟨3, 4⟩ (some (⟨1, 1⟩, ⟨1, 2⟩))]] := by
  intro leaf tree
  have hroom : tree.size ≤ Builder.maxNodes := by decide
  obtain ⟨t, hbuild, -, -, hread, -⟩ := build_faithful "g" ['a', '\n', 'b', 'c'] tree hroom
  exact ⟨hroom, t, hbuild, hread⟩

end Tree

end LiveSyntax
