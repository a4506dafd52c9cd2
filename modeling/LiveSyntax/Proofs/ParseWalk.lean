import LiveSyntax.Parse.Tree
import LiveSyntax.Proofs.OrderedTree

/-!
# The walk over a parser tree

A cursor knows only its place: where it has been is in the levels above it, and what comes next is found
by a move. `Cursor.Walks` is the walk without any count of steps, made of the moves alone: it is a walk
only if it comes to an end. This file shows that it does, and that on the way it meets every node in
order, entering it before and leaving it after its children. So a parser tree becomes a syntax tree
whenever the node table has room for it, and the syntax tree is a copy of it.

## Main definitions

- `ParseTree.described`: a parser tree as the builder is told of it.
- `ParseTree.Cursor.Walks`: a walk that comes to an end.
- `Node.Copies`: a node that says what a parser node says.

## Main results

- `ParseTree.walks_iff`: there is one walk, and it gives the events of the tree.
- `ParseTree.walk_eq_events`: this is the walk that is made.
- `Tree.exists_ofParse`: a parser tree that is not too large becomes a syntax tree.
- `Tree.ofParse_faithful`: nothing is lost on the way.
-/

namespace LiveSyntax

namespace ParseTree

mutual

/-- The tree, with what the builder is told about each node. -/
def described : ParseTree → OrderedTree NodeSpec
  | .node label children => .node label.spec (describedAll children)

def describedAll : List ParseTree → List (OrderedTree NodeSpec)
  | [] => []
  | tree :: rest => tree.described :: describedAll rest

end

mutual

/-- The nodes in pre-order. -/
def labels : ParseTree → List ParseNode
  | .node label children => label :: labelsAll children

def labelsAll : List ParseTree → List ParseNode
  | [] => []
  | tree :: rest => tree.labels ++ labelsAll rest

end

mutual

theorem size_described (t : ParseTree) : t.described.size = t.size := by
  match t with
  | .node label children => rw [described, OrderedTree.size, size, sizeAll_describedAll]

theorem sizeAll_describedAll (trees : List ParseTree) :
    OrderedTree.sizeAll (describedAll trees) = sizeAll trees := by
  match trees with
  | [] => rfl
  | tree :: rest =>
    rw [describedAll, OrderedTree.sizeAll, sizeAll, size_described, sizeAll_describedAll]

end

mutual

theorem preorder_described (t : ParseTree) : t.described.preorder = t.labels.map ParseNode.spec := by
  match t with
  | .node label children =>
    rw [described, OrderedTree.preorder, labels, List.map_cons, preorderAll_describedAll]

theorem preorderAll_describedAll (trees : List ParseTree) :
    OrderedTree.preorderAll (describedAll trees) = (labelsAll trees).map ParseNode.spec := by
  match trees with
  | [] => rfl
  | tree :: rest =>
    rw [describedAll, OrderedTree.preorderAll, labelsAll, List.map_append, preorder_described,
      preorderAll_describedAll]

end

namespace Cursor

/-- A walk from a place on until there is nowhere left to go, with its events. -/
inductive Walks : Phase → Cursor → List Event → Prop
  | down {c child : Cursor} {events : List Event} (moved : c.firstChild? = some child)
    (rest : Walks .entering child events) : Walks .entering c (.enter c.focus.label.spec :: events)
  | turn {c : Cursor} {events : List Event} (childless : c.firstChild? = none)
    (rest : Walks .leaving c events) : Walks .entering c (.enter c.focus.label.spec :: events)
  | across {c next : Cursor} {events : List Event} (moved : c.nextSibling? = some next)
    (rest : Walks .entering next events) : Walks .leaving c (.leave :: events)
  | up {c parent : Cursor} {events : List Event} (last : c.nextSibling? = none)
    (moved : c.parent? = some parent) (rest : Walks .leaving parent events) :
    Walks .leaving c (.leave :: events)
  | stop {c : Cursor} (last : c.nextSibling? = none) (top : c.parent? = none) :
    Walks .leaving c [.leave]

/-- Counted steps make the same walk, as soon as there are enough of them. -/
theorem Walks.walkUpTo_eq {phase : Phase} {c : Cursor} {events : List Event}
    (h : Walks phase c events) {fuel : Nat} (hfuel : events.length ≤ fuel) :
    walkUpTo fuel phase c = events := by
  induction h generalizing fuel with
  | down moved _ ih | turn moved _ ih | across moved _ ih =>
    obtain ⟨fuel, rfl⟩ := Nat.exists_eq_add_of_le' (Nat.le_trans (Nat.le_add_left 1 _) hfuel)
    simp [walkUpTo, moved, ih (Nat.le_of_succ_le_succ hfuel)]
  | up last moved _ ih =>
    obtain ⟨fuel, rfl⟩ := Nat.exists_eq_add_of_le' (Nat.le_trans (Nat.le_add_left 1 _) hfuel)
    simp [walkUpTo, last, moved, ih (Nat.le_of_succ_le_succ hfuel)]
  | stop last top =>
    obtain ⟨fuel, rfl⟩ := Nat.exists_eq_add_of_le' hfuel
    simp [walkUpTo, last, top]

theorem Walks.unique {phase : Phase} {c : Cursor} {events others : List Event}
    (h : Walks phase c events) (h' : Walks phase c others) : events = others := by
  rw [← h.walkUpTo_eq (Nat.le_max_left _ others.length), h'.walkUpTo_eq (Nat.le_max_right _ _)]

mutual

/-- **A subtree** is walked, and then the walk goes on from its top. -/
theorem walks_entering (t : ParseTree) (levels : List Level) (rest : List Event)
    (h : Walks .leaving ⟨t, levels⟩ (.leave :: rest)) :
    Walks .entering ⟨t, levels⟩ (t.described.events ++ rest) := by
  match t with
  | .node label [] => exact .turn rfl h
  | .node label (first :: after) =>
    -- The walk goes down to the first child, along its siblings, and comes up to leave the node.
    have hsiblings := walks_siblings after first label [] levels rest h
    have hfirst := walks_entering first (⟨label, [], after⟩ :: levels) _ hsiblings
    rw [described, describedAll, OrderedTree.events, OrderedTree.eventsAll, List.cons_append,
      List.append_assoc, List.append_assoc]
    exact .down rfl hfirst

/-- The siblings after a place are walked one after the other, and then the node above is left. -/
theorem walks_siblings (after : List ParseTree) (focus : ParseTree) (above : ParseNode)
    (before : List ParseTree) (levels : List Level) (rest : List Event)
    (h : Walks .leaving ⟨.node above (before.reverse ++ focus :: after), levels⟩ (.leave :: rest)) :
    Walks .leaving ⟨focus, ⟨above, before, after⟩ :: levels⟩
      (.leave :: (OrderedTree.eventsAll (describedAll after) ++ .leave :: rest)) := by
  match after with
  | [] => exact .up rfl rfl h
  | next :: others =>
    have hparent : Walks .leaving
        ⟨.node above ((focus :: before).reverse ++ next :: others), levels⟩ (.leave :: rest) := by
      rw [List.reverse_cons, List.append_assoc]
      exact h
    have hothers := walks_siblings others next above (focus :: before) levels rest hparent
    have hnext := walks_entering next (⟨above, focus :: before, others⟩ :: levels) _ hothers
    rw [describedAll, OrderedTree.eventsAll, List.append_assoc]
    exact .across rfl hnext

end

end Cursor

theorem walks_described (t : ParseTree) : Cursor.Walks .entering t.cursor t.described.events := by
  -- Above the top there is no sibling and no parent.
  have hwalks := Cursor.walks_entering t [] [] (.stop rfl rfl)
  rwa [List.append_nil] at hwalks

/-- **There is one walk over a tree**, and it gives the events of the tree. -/
theorem walks_iff (t : ParseTree) (events : List Event) :
    Cursor.Walks .entering t.cursor events ↔ events = t.described.events := by
  constructor
  · intro h
    exact h.unique t.walks_described
  · rintro rfl
    exact t.walks_described

mutual

theorem length_events (t : ParseTree) : t.described.events.length = 2 * t.size := by
  match t with
  | .node label children =>
    rw [described, OrderedTree.events, size, List.length_cons, List.length_append,
      length_eventsAll, List.length_singleton]
    omega

theorem length_eventsAll (trees : List ParseTree) :
    (OrderedTree.eventsAll (describedAll trees)).length = 2 * sizeAll trees := by
  match trees with
  | [] => rfl
  | tree :: rest =>
    rw [describedAll, OrderedTree.eventsAll, sizeAll, List.length_append, length_events,
      length_eventsAll]
    omega

end

/-- **The walk gives the events of the tree**, all of them and nothing else. -/
theorem walk_eq_events (t : ParseTree) : t.walk = t.described.events :=
  t.walks_described.walkUpTo_eq (Nat.le_of_eq t.length_events)

end ParseTree

/-- A node says what a parser node says, apart from where it stands in the source. -/
structure Node.Copies (n : Node) (p : ParseNode) : Prop where
  kind : n.kind = p.kind
  field : n.field = p.field
  named : n.named = p.named
  error : n.error = true ↔ p.error = true ∨ p.missing = true

namespace Tree

/-- A parser tree that is not too large becomes a syntax tree with its nodes. -/
theorem exists_ofParse (grammar : String) (source : Text) (raw : ParseTree)
    (hroom : raw.size ≤ Builder.maxNodes) :
    ∃ t, Tree.ofParse grammar source raw = .ok t ∧ t.Holds raw.described := by
  rw [Tree.ofParse, ParseTree.walk_eq_events]
  exact Tree.exists_build grammar source raw.described (by rwa [ParseTree.size_described])

variable {t : Tree} {raw : ParseTree}

theorem specOf_of_holds (h : t.Holds raw.described) {i : Nat} {p : ParseNode}
    (hp : raw.labels[i]? = some p) :
    (t.node i).spec = if i = Arena.root then p.spec.widened t.source else p.spec := by
  have hspec : raw.described.preorder[i]? = some p.spec := by
    rw [ParseTree.preorder_described, List.getElem?_map, hp, Option.map_some]
  exact h.specOf_eq hspec

theorem copies_of_holds (h : t.Holds raw.described) {i : Nat} {p : ParseNode}
    (hp : raw.labels[i]? = some p) : (t.node i).Copies p := by
  have hspec := specOf_of_holds h hp
  -- Widening a node changes only its place in the source.
  have hsame : (t.node i).kind = p.kind ∧ (t.node i).field = p.field ∧
      (t.node i).named = p.named ∧ (t.node i).error = (p.error || p.missing) := by
    split at hspec <;> exact ⟨congrArg NodeSpec.kind hspec, congrArg NodeSpec.field hspec,
      congrArg NodeSpec.named hspec, congrArg NodeSpec.error hspec⟩
  obtain ⟨hkind, hfield, hnamed, herror⟩ := hsame
  exact ⟨hkind, hfield, hnamed, by rw [herror, Bool.or_eq_true]⟩

/-- **Conversion never fails and loses nothing.** The walk over a parser tree comes to an end, and enters
and leaves every node once, around its children and in their order. As long as the nodes can be numbered
by words of thirty-two bits, the events of the walk build a syntax tree. It has the shape of the parser
tree, with its nodes numbered in pre-order, and every node says what the parser node says: its kind,
field and flag, its span and positions, and an error where the parser met one or put a node in. Only the
root spans the whole source, whatever the parser says. -/
theorem ofParse_faithful (grammar : String) (source : Text) (raw : ParseTree)
    (hroom : raw.size ≤ Builder.maxNodes) :
    (∀ events, ParseTree.Cursor.Walks .entering raw.cursor events ↔
      events = raw.described.events) ∧
    raw.walk = raw.described.events ∧
    ∃ t, Tree.ofParse grammar source raw = .ok t ∧ t.grammar = grammar ∧ t.source = source ∧
      t.unfold Arena.root = raw.described.numbered Arena.root ∧ t.size = raw.labels.length ∧
      (∀ i p, raw.labels[i]? = some p → (t.node i).Copies p) ∧
      (∀ i p, raw.labels[i]? = some p → i ≠ Arena.root →
        t.span i = p.span ∧ (t.node i).start = p.start ∧ (t.node i).stop = p.stop) ∧
      t.span Arena.root = ⟨0, source.byteCount⟩ ∧ (t.node Arena.root).start = ⟨0, 0⟩ ∧
      (t.node Arena.root).stop = Position.atByte source source.byteCount := by
  refine ⟨raw.walks_iff, raw.walk_eq_events, ?_⟩
  obtain ⟨t, hparse, hholds⟩ := exists_ofParse grammar source raw hroom
  obtain ⟨hgrammar, hsource, hspan⟩ := Tree.build_spec hparse
  have hsize := hholds.size_eq
  refine ⟨t, hparse, hgrammar, hsource, ?_, ?_, fun i p hp => copies_of_holds hholds hp, ?_, hspan,
    ?_⟩
  · exact Arena.unfoldUpTo_of_links raw.described hholds.links (Nat.le_of_eq hsize.symm)
  · rw [hsize, ← OrderedTree.length_preorder, ParseTree.preorder_described, List.length_map]
  · intro i p hp hi
    have hspec := specOf_of_holds hholds hp
    rw [if_neg hi] at hspec
    have hpositions := Option.some.inj (congrArg NodeSpec.positions hspec)
    exact ⟨congrArg NodeSpec.span hspec, congrArg Prod.fst hpositions, congrArg Prod.snd hpositions⟩
  · obtain ⟨p, hp⟩ : ∃ p, raw.labels[Arena.root]? = some p := by
      cases raw with
      | node label children => exact ⟨label, rfl⟩
    have hspec := specOf_of_holds hholds hp
    rw [if_pos rfl, hsource] at hspec
    have hpositions := Option.some.inj (congrArg NodeSpec.positions hspec)
    exact ⟨congrArg Prod.fst hpositions, congrArg Prod.snd hpositions⟩

/-- A root with too small a span, above a missing node and a branch with an error in the second row. -/
theorem ofParse_faithful_error_below_branch :
    let leaf (kind : String) (error missing : Bool) (span : Span) (start stop : Position) :=
      ParseTree.node ⟨kind, true, error, missing, some "item", span, start, stop⟩ []
    let raw := ParseTree.node ⟨"list", true, false, false, none, ⟨1, 2⟩, ⟨0, 1⟩, ⟨1, 0⟩⟩
      [leaf "comma" false true ⟨1, 1⟩ ⟨0, 1⟩ ⟨0, 1⟩,
        .node ⟨"tail", false, false, false, none, ⟨2, 4⟩, ⟨1, 0⟩, ⟨1, 2⟩⟩
          [leaf "ERROR" true false ⟨3, 4⟩ ⟨1, 1⟩ ⟨1, 2⟩]]
    raw.size ≤ Builder.maxNodes ∧
    ∃ t, Tree.ofParse "g" ['a', '\n', 'b', 'c'] raw = .ok t ∧
      t.unfold Arena.root = .node 0 [.node 1 [], .node 2 [.node 3 []]] ∧
      (t.node 1).error = true ∧ (t.node 3).error = true ∧ (t.node 2).named = false ∧
      t.span 3 = ⟨3, 4⟩ ∧ t.span Arena.root = ⟨0, 4⟩ := by
  intro leaf raw
  have hroom : raw.size ≤ Builder.maxNodes := by decide
  obtain ⟨-, -, t, hparse, -, -, hshape, -, hcopies, hplaces, hspan, -⟩ :=
    ofParse_faithful "g" ['a', '\n', 'b', 'c'] raw hroom
  refine ⟨hroom, t, hparse, hshape, ?_, ?_, (hcopies 2 _ rfl).named, ?_, hspan⟩
  · exact (hcopies 1 _ rfl).error.mpr (.inr rfl)
  · exact (hcopies 3 _ rfl).error.mpr (.inl rfl)
  · exact (hplaces 3 _ rfl (by decide)).1

end Tree

end LiveSyntax
