import LiveSyntax.Text.Position
import LiveSyntax.Text.Span

/-!
# Node tables

An `Arena` holds the nodes of one ordered tree in pre-order. Each node knows its parent, its depth and where its
subtree ends, so the subtree of node `i` is the run of indices from `i` up to its end, the first child of `i` is
`i + 1`, and the next sibling of a child starts where that child's subtree ends.

A node is kept as a `Cell`, which refers to its kind and its field by number. The names themselves stand once each in
two tables of the arena.

## Main definitions

- `Cell`, `Node`: a node as it is kept, and with its names.
- `Arena.node`: the node at an index.
- `Arena.children`, `Arena.ancestors`, `Arena.subtree`: the links of a node, as lists of indices.
- `Arena.childIndex?`, `Arena.nextSibling?`, `Arena.prevSibling?`: the place among the siblings.
- `Arena.isAncestorOf`: whether one node lies in the subtree of another.

## Design notes

Nodes are named by their index. An index past the end reads as a node without kind, span or children, so that no
function here is partial; the tables that the builder makes never read one.
-/

namespace LiveSyntax

/-- What a node says apart from its names. -/
structure NodeShape where
  named : Bool
  error : Bool
  span : Span
  start : Position
  stop : Position
  parent : Option Nat
  depth : Nat
  /-- The index after the last node of the subtree. -/
  subtreeEnd : Nat
  deriving DecidableEq, Repr, Inhabited

/-- One node of a tree, with its names by number. -/
structure Cell extends NodeShape where
  kind : Nat
  /-- The name that the parent gives to this child. -/
  field : Option Nat
  deriving DecidableEq, Repr, Inhabited

structure Node extends NodeShape where
  kind : String
  field : Option String
  deriving DecidableEq, Repr, Inhabited

/-- The nodes of a tree in pre-order. -/
structure Arena where
  cells : Array Cell
  kinds : Array String
  fields : Array String
  deriving DecidableEq, Repr, Inhabited

namespace Arena

def root : Nat := 0

def size (t : Arena) : Nat :=
  t.cells.size

def indices (t : Arena) : List Nat :=
  List.range t.size

def resolve (t : Arena) (c : Cell) : Node :=
  { c.toNodeShape with
    kind := t.kinds.getD c.kind ""
    field := c.field.map fun number => t.fields.getD number "" }

def nodes (t : Arena) : Array Node :=
  t.cells.map t.resolve

def node (t : Arena) (i : Nat) : Node :=
  match t.cells[i]? with
  | none => default
  | some c => t.resolve c

def kind (t : Arena) (i : Nat) : String :=
  (t.node i).kind

def field? (t : Arena) (i : Nat) : Option String :=
  (t.node i).field

def span (t : Arena) (i : Nat) : Span :=
  (t.node i).span

def length (t : Arena) (i : Nat) : Nat :=
  (t.span i).length

def depth (t : Arena) (i : Nat) : Nat :=
  (t.node i).depth

def subtreeEnd (t : Arena) (i : Nat) : Nat :=
  (t.node i).subtreeEnd

def parent? (t : Arena) (i : Nat) : Option Nat :=
  (t.node i).parent

/-- The first `fuel` ancestors of a node, nearest first. -/
def ancestorsUpTo (t : Arena) : (fuel : Nat) → Nat → List Nat
  | 0, _ => []
  | fuel + 1, i =>
    match t.parent? i with
    | none => []
    | some p => p :: ancestorsUpTo t fuel p

/-- The ancestors of a node, nearest first. A table of `n` nodes has no chain of more than `n`. -/
def ancestors (t : Arena) (i : Nat) : List Nat :=
  t.ancestorsUpTo t.size i

/-- The ancestor `levels` steps up; the node itself for no step. -/
def ancestor? (t : Arena) (i : Nat) : (levels : Nat) → Option Nat
  | 0 => some i
  | levels + 1 =>
    match t.parent? i with
    | none => none
    | some p => ancestor? t p levels

/-- The siblings from index `next` on that start before `stop`: each starts where the subtree of the one before it
ends. -/
def siblingsUpTo (t : Arena) : (fuel : Nat) → (next stop : Nat) → List Nat
  | 0, _, _ => []
  | fuel + 1, next, stop =>
    if next < stop then next :: siblingsUpTo t fuel (t.subtreeEnd next) stop else []

def children (t : Arena) (i : Nat) : List Nat :=
  t.siblingsUpTo (t.subtreeEnd i - (i + 1)) (i + 1) (t.subtreeEnd i)

def namedChildren (t : Arena) (i : Nat) : List Nat :=
  (t.children i).filter fun c => (t.node c).named

def childCount (t : Arena) (i : Nat) : Nat :=
  (t.children i).length

def childByField? (t : Arena) (i : Nat) (field : String) : Option Nat :=
  (t.children i).find? fun c => t.field? c == some field

def childByKind? (t : Arena) (i : Nat) (kind : String) : Option Nat :=
  (t.children i).find? fun c => t.kind c == kind

def childIndex? (t : Arena) (i : Nat) : Option Nat :=
  match t.parent? i with
  | none => none
  | some p => (t.children p).findIdx? (· == i)

def nextSibling? (t : Arena) (i : Nat) : Option Nat :=
  match t.parent? i with
  | none => none
  | some p => if t.subtreeEnd i < t.subtreeEnd p then some (t.subtreeEnd i) else none

def prevSibling? (t : Arena) (i : Nat) : Option Nat :=
  match t.parent? i with
  | none => none
  | some p => ((t.children p).takeWhile (· != i)).getLast?

def subtree (t : Arena) (i : Nat) : List Nat :=
  List.range' i (t.subtreeEnd i - i)

/-- Whether `j` lies in the subtree of `i`, `i` included. -/
def isAncestorOf (t : Arena) (i j : Nat) : Bool :=
  decide (i ≤ j ∧ j < t.subtreeEnd i)

end Arena

end LiveSyntax
