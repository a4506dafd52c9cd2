import LiveSyntax.Tree.Builder
import Mathlib.Data.List.Basic

/-!
# What events do to the nodes of a builder

A builder keeps its nodes as cells that refer to kinds and fields by number. Here they are read with
their names, as `Builder.nodes`, and each event is described by what it does to that list: a node that
opens is put at the end, and a node that closes gets the end of its subtree. Names do not change once
they are given, because the tables only grow; `Builder.Named` says that every number in a cell has
been given.

## Main definitions

- `Builder.nodes`: the nodes so far, with their names.
- `Builder.Named`: every cell refers to names that its tables have.

## Main results

- `Builder.nodes_enter`, `Builder.nodes_leave`: the effect of opening and closing.
- `Builder.finish_eq_ok_iff`, `Builder.nodes_of_finish`: when a tree comes out, and with which nodes.
- `Builder.finish_eq_error_iff`: what comes out instead.
-/

namespace LiveSyntax

namespace NameTable

/-- Every name of the first table has the same number in the second one. -/
def Keeps (t u : NameTable) : Prop :=
  ∀ (number : Nat) (name : String), t.names[number]? = some name → u.names[number]? = some name

theorem keeps_intern (t : NameTable) (name : String) : t.Keeps (t.intern name).1 :=
  fun _ _ h => names_intern_of_some name h

theorem keeps_intern? (t : NameTable) (name : Option String) : t.Keeps (t.intern? name).1 := by
  cases name with
  | none => exact fun _ _ h => h
  | some name => exact t.keeps_intern name

theorem names_intern? {t : NameTable} {name : Option String} {number : Nat}
    (h : number ∈ (t.intern? name).2) : (t.intern? name).1.names[number]? = name := by
  cases name with
  | none => simp [intern?] at h
  | some name =>
    obtain rfl : (t.intern name).2 = number := by simpa [intern?] using h
    exact t.names_intern name

end NameTable

namespace Arena

/-- The node at an index, read off the list of nodes. -/
theorem node_eq_getElem? (t : Arena) (i : Nat) : t.node i = t.nodes.toList[i]?.getD default := by
  unfold node nodes
  rw [Array.toList_map, List.getElem?_map, Array.getElem?_toList]
  cases t.cells[i]? <;> rfl

theorem length_nodes (t : Arena) : t.nodes.toList.length = t.size := by
  simp [nodes, size]

end Arena

namespace Builder

/-- The nodes opened so far, with their names. -/
def nodes (b : Builder) : List Node :=
  b.arena.nodes.toList

theorem nodes_eq_map (b : Builder) : b.nodes = b.cells.toList.map b.arena.resolve :=
  Array.toList_map

theorem length_nodes (b : Builder) : b.nodes.length = b.cells.size :=
  b.arena.length_nodes

/-- Every cell refers to names that the tables have. -/
def Named (b : Builder) : Prop :=
  ∀ c ∈ b.cells.toList, (∃ kind, b.kinds.names[c.kind]? = some kind) ∧
    ∀ number ∈ c.field, ∃ field, b.fields.names[number]? = some field

theorem named_start (source : Text) : (start source).Named := by
  intro c hc
  simp [start] at hc

/-- Larger tables read a named cell the same. -/
theorem resolve_eq_of_keeps {b d : Builder} (hkinds : b.kinds.Keeps d.kinds)
    (hfields : b.fields.Keeps d.fields) (h : b.Named) {c : Cell} (hc : c ∈ b.cells.toList) :
    d.arena.resolve c = b.arena.resolve c := by
  obtain ⟨⟨kind, hkind⟩, hfield⟩ := h c hc
  unfold Arena.resolve arena
  simp only [Array.getD_eq_getD_getElem?, hkind, hkinds _ _ hkind, Option.getD_some,
    Node.mk.injEq, true_and]
  cases hcell : c.field with
  | none => rfl
  | some number =>
    obtain ⟨field, hfield⟩ := hfield number hcell
    simp [hfield, hfields _ _ hfield]

/-- The node that opens next. -/
def nextNode (b : Builder) (spec : NodeSpec) : Node :=
  { kind := spec.kind
    field := spec.field
    named := spec.named
    error := spec.error
    span := spec.span
    start := (b.positionsOf spec).1
    stop := (b.positionsOf spec).2
    parent := b.opened.head?
    depth := b.opened.length
    subtreeEnd := b.nodes.length + 1 }

@[simp] theorem source_enter (b : Builder) (spec : NodeSpec) : (b.enter spec).source = b.source := rfl

@[simp] theorem opened_enter (b : Builder) (spec : NodeSpec) :
    (b.enter spec).opened = b.nodes.length :: b.opened := by
  rw [length_nodes]
  rfl

theorem cells_enter (b : Builder) (spec : NodeSpec) :
    (b.enter spec).cells.toList = b.cells.toList ++
      [b.nextCell spec (b.kinds.intern spec.kind).2 (b.fields.intern? spec.field).2] :=
  Array.toList_push

theorem named_enter {b : Builder} (h : b.Named) (spec : NodeSpec) : (b.enter spec).Named := by
  intro c hc
  rw [cells_enter, List.mem_append, List.mem_singleton] at hc
  rcases hc with hc | rfl
  · obtain ⟨⟨kind, hkind⟩, hfield⟩ := h c hc
    refine ⟨⟨kind, b.kinds.keeps_intern _ _ _ hkind⟩, fun number hnumber => ?_⟩
    obtain ⟨field, hfield⟩ := hfield number hnumber
    exact ⟨field, b.fields.keeps_intern? _ _ _ hfield⟩
  · refine ⟨⟨spec.kind, b.kinds.names_intern _⟩, fun number hnumber => ?_⟩
    have hname := NameTable.names_intern? hnumber
    cases hfield : spec.field with
    | none => simp [nextCell, NameTable.intern?, hfield] at hnumber
    | some field =>
      rw [hfield] at hname
      exact ⟨field, by simpa [enter, hfield] using hname⟩

theorem resolve_nextCell (b : Builder) (spec : NodeSpec) :
    (b.enter spec).arena.resolve
      (b.nextCell spec (b.kinds.intern spec.kind).2 (b.fields.intern? spec.field).2) =
        b.nextNode spec := by
  have hkind := b.kinds.names_intern spec.kind
  unfold Arena.resolve arena nextNode
  simp only [enter, nextCell, Array.getD_eq_getD_getElem?, hkind, length_nodes, Option.getD_some,
    Node.mk.injEq, true_and]
  cases spec.field with
  | none => rfl
  | some field => simp [NameTable.intern?, b.fields.names_intern field]

/-- **Opening a node** puts it at the end, and changes no other node. -/
theorem nodes_enter {b : Builder} (h : b.Named) (spec : NodeSpec) :
    (b.enter spec).nodes = b.nodes ++ [b.nextNode spec] := by
  have hkinds : b.kinds.Keeps (b.enter spec).kinds := b.kinds.keeps_intern _
  have hfields : b.fields.Keeps (b.enter spec).fields := b.fields.keeps_intern? _
  rw [nodes_eq_map, nodes_eq_map, cells_enter, List.map_append, List.map_singleton]
  congr 1
  · exact List.map_congr_left fun c hc => resolve_eq_of_keeps hkinds hfields h hc
  · rw [resolve_nextCell]

/-- A change of one cell that leaves its names shows in the nodes as the same change. -/
theorem map_resolve_modify (t : Arena) (cells : List Cell) (i : Nat) (f : NodeShape → NodeShape) :
    (cells.modify i fun c => ⟨f c.toNodeShape, c.kind, c.field⟩).map t.resolve =
      (cells.map t.resolve).modify i fun n => ⟨f n.toNodeShape, n.kind, n.field⟩ := by
  induction cells generalizing i with
  | nil => rw [List.modify_nil, List.map_nil, List.modify_nil]
  | cons c rest ih =>
    cases i with
    | zero => rfl
    | succ i => simp only [List.modify_succ_cons, List.map_cons, ih]

section Leave

variable {b : Builder} {index : Nat} {outer : List Nat}

/-- The shape of a node whose subtree ends at the end of the nodes so far. -/
def closed (b : Builder) (shape : NodeShape) : NodeShape :=
  { shape with subtreeEnd := b.nodes.length }

theorem leave_eq (h : b.opened = index :: outer) :
    b.leave = { b with
      cells := b.cells.modify index fun c => ⟨b.closed c.toNodeShape, c.kind, c.field⟩
      opened := outer } := by
  unfold leave closed
  rw [length_nodes]
  split
  · next hnil => rw [h] at hnil; cases hnil
  · next i o hcons =>
    rw [h] at hcons
    obtain ⟨rfl, rfl⟩ := List.cons.inj hcons
    rfl

/-- **Closing a node** sets the end of its subtree, and changes nothing else. -/
theorem nodes_leave (h : b.opened = index :: outer) :
    b.leave.nodes = b.nodes.modify index fun n => ⟨b.closed n.toNodeShape, n.kind, n.field⟩ := by
  rw [leave_eq h, nodes_eq_map, nodes_eq_map b, Array.toList_modify]
  exact map_resolve_modify b.arena b.cells.toList index b.closed

theorem named_leave (h : b.opened = index :: outer) (hnamed : b.Named) : b.leave.Named := by
  rw [leave_eq h]
  intro c hc
  rw [Array.toList_modify] at hc
  obtain ⟨i, hi⟩ := List.mem_iff_getElem?.mp hc
  rw [List.getElem?_modify] at hi
  obtain ⟨d, hd, hcd⟩ := Option.map_eq_some_iff.mp hi
  have hnames := hnamed d (List.mem_iff_getElem?.mpr ⟨i, hd⟩)
  rw [← hcd]
  split <;> exact hnames

end Leave

theorem isEmpty_cells_iff (b : Builder) : b.cells.isEmpty = true ↔ b.nodes = [] := by
  rw [Array.isEmpty_iff_size_eq_zero, ← length_nodes, List.length_eq_zero_iff]

/-- A tree comes out exactly of a builder that has nodes, none of them open, and no fault. -/
theorem finish_eq_ok_iff {b : Builder} {grammar : String} {t : Tree} :
    b.finish grammar = .ok t ↔ b.fault = none ∧ b.opened = [] ∧ b.nodes ≠ [] ∧
      t = { b.arena with cells := b.widened, grammar, source := b.source } := by
  unfold finish
  cases hfault : b.fault with
  | some fault => simp
  | none =>
    by_cases hopened : b.opened = []
    · by_cases hnodes : b.nodes = []
      · simp [hopened, hnodes, b.isEmpty_cells_iff.mpr hnodes]
      · have hcells : ¬b.cells.isEmpty = true := mt b.isEmpty_cells_iff.mp hnodes
        simp [hopened, hnodes, hcells, eq_comm]
    · simp [hopened]

/-- No tree comes out if there is a fault, or else if nodes are open, or else if there is none. -/
theorem finish_eq_error_iff {b : Builder} {grammar : String} {fault : BuildError} :
    b.finish grammar = .error fault ↔ b.fault = some fault ∨ b.fault = none ∧
      (b.opened ≠ [] ∧ .unclosed b.opened.length = fault ∨
        b.opened = [] ∧ b.nodes = [] ∧ .empty = fault) := by
  unfold finish
  cases hfault : b.fault with
  | some other => simp
  | none =>
    by_cases hopened : b.opened = []
    · by_cases hnodes : b.nodes = []
      · simp [hopened, hnodes, b.isEmpty_cells_iff.mpr hnodes]
      · have hcells : ¬b.cells.isEmpty = true := mt b.isEmpty_cells_iff.mp hnodes
        simp [hopened, hnodes, hcells]
    · simp [hopened]

/-- The shape of a root that spans the whole source. -/
def rootShape (source : Text) (shape : NodeShape) : NodeShape :=
  { shape with
    span := ⟨0, source.byteCount⟩
    start := Position.origin
    stop := source.positionOfByte source.byteCount }

/-- The nodes of a finished tree are those of the builder, with the root widened. -/
theorem nodes_of_finish {b : Builder} {grammar : String} {t : Tree} (h : b.finish grammar = .ok t) :
    t.nodes.toList =
      b.nodes.modify Arena.root fun n => ⟨rootShape b.source n.toNodeShape, n.kind, n.field⟩ := by
  obtain ⟨-, -, -, rfl⟩ := finish_eq_ok_iff.mp h
  unfold Arena.nodes
  rw [nodes_eq_map, Array.toList_map]
  change (b.cells.modify _ _).toList.map _ = _
  rw [Array.toList_modify]
  exact map_resolve_modify b.arena b.cells.toList Arena.root (rootShape b.source)

theorem source_leave (b : Builder) : b.leave.source = b.source := by
  unfold leave blame
  split <;> rfl

theorem source_step (b : Builder) (event : Event) : (b.step event).source = b.source := by
  cases event with
  | enter spec => rfl
  | leaf spec => exact (source_leave _).trans (source_enter b spec)
  | leave => exact source_leave b

theorem source_foldl_step (b : Builder) (events : List Event) :
    (events.foldl step b).source = b.source := by
  induction events generalizing b with
  | nil => rfl
  | cons event events ih => rw [List.foldl_cons, ih, source_step]

end Builder

namespace Tree

/-- A tree that is built has the grammar and the text that were told, and its root spans all of it. -/
theorem build_spec {grammar : String} {source : Text} {events : List Event} {t : Tree}
    (h : Tree.build grammar source events = .ok t) :
    t.grammar = grammar ∧ t.source = source ∧ t.span Arena.root = ⟨0, source.byteCount⟩ := by
  have hsource := Builder.source_foldl_step (Builder.start source) events
  have hnodes := Builder.nodes_of_finish h
  obtain ⟨-, -, hsome, ht⟩ := Builder.finish_eq_ok_iff.mp h
  refine ⟨by rw [ht], by rw [ht]; exact hsource, ?_⟩
  obtain ⟨root, rest, hcons⟩ := List.exists_cons_of_ne_nil hsome
  rw [hcons, hsource, Arena.root, List.modify_zero_cons] at hnodes
  rw [Arena.span, Arena.node_eq_getElem?, hnodes]
  rfl

theorem size_pos_of_build {grammar : String} {source : Text} {events : List Event} {t : Tree}
    (h : Tree.build grammar source events = .ok t) : 0 < t.size := by
  obtain ⟨-, -, hsome, -⟩ := Builder.finish_eq_ok_iff.mp h
  rw [← Arena.length_nodes, Builder.nodes_of_finish h, List.length_modify]
  exact List.length_pos_iff.mpr hsome

end Tree

end LiveSyntax
