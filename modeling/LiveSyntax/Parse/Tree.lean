import LiveSyntax.Tree.Builder

/-!
# Parser trees

A parser answers with an ordered tree of its own. A `Cursor` stands on one node of it and moves to the first child, the
next sibling or the parent, as long as there is one. Walking the whole tree with a cursor gives the word of events from
which the syntax tree is built.
-/

namespace LiveSyntax

structure ParseNode where
  kind : String
  named : Bool
  /-- Whether the parser could not make sense of the source here. -/
  error : Bool
  /-- Whether the parser put the node in to go on. -/
  missing : Bool
  field : Option String
  span : Span
  start : Position
  stop : Position
  deriving DecidableEq, Repr, Inhabited

/-- What the builder is told about a parser node. Error nodes and missing nodes both count as errors. -/
def ParseNode.spec (n : ParseNode) : NodeSpec :=
  { kind := n.kind
    span := n.span
    named := n.named
    error := n.error || n.missing
    field := n.field
    positions := some (n.start, n.stop) }

inductive ParseTree where
  | node (label : ParseNode) (children : List ParseTree)
  deriving Repr, Inhabited

namespace ParseTree

def label : ParseTree → ParseNode
  | .node label _ => label

def children : ParseTree → List ParseTree
  | .node _ children => children

mutual

def size : ParseTree → Nat
  | .node _ children => sizeAll children + 1

def sizeAll : List ParseTree → Nat
  | [] => 0
  | tree :: rest => size tree + sizeAll rest

end

/-- One level of the way up from a place: the node above, and the siblings on both sides. -/
structure Level where
  above : ParseNode
  /-- The siblings before, nearest first. -/
  before : List ParseTree
  after : List ParseTree

structure Cursor where
  focus : ParseTree
  levels : List Level

namespace Cursor

def firstChild? (c : Cursor) : Option Cursor :=
  match c.focus with
  | .node _ [] => none
  | .node above (first :: after) => some ⟨first, ⟨above, [], after⟩ :: c.levels⟩

def nextSibling? (c : Cursor) : Option Cursor :=
  match c.levels with
  | ⟨above, before, next :: after⟩ :: up => some ⟨next, ⟨above, c.focus :: before, after⟩ :: up⟩
  | _ => none

def parent? (c : Cursor) : Option Cursor :=
  match c.levels with
  | ⟨above, before, after⟩ :: up => some ⟨.node above (before.reverse ++ c.focus :: after), up⟩
  | [] => none

inductive Phase where
  | entering
  | leaving
  deriving DecidableEq, Repr

/-- The events of at most `fuel` steps of the walk. A node is entered, then its first child if there is one; a node that
is left is followed by its next sibling, or else by its parent being left. -/
def walkUpTo : (fuel : Nat) → Phase → Cursor → List Event
  | 0, _, _ => []
  | fuel + 1, .entering, c =>
    .enter c.focus.label.spec ::
      (match c.firstChild? with
        | some child => walkUpTo fuel .entering child
        | none => walkUpTo fuel .leaving c)
  | fuel + 1, .leaving, c =>
    .leave ::
      (match c.nextSibling? with
        | some next => walkUpTo fuel .entering next
        | none =>
          match c.parent? with
          | some parent => walkUpTo fuel .leaving parent
          | none => [])

end Cursor

def cursor (t : ParseTree) : Cursor :=
  ⟨t, []⟩

/-- The events of the whole walk. Every node is entered and left once, so there are two steps a node. -/
def walk (t : ParseTree) : List Event :=
  Cursor.walkUpTo (2 * t.size) .entering t.cursor

/-- The node table of a parser tree. The root keeps the span that the parser gave it. -/
def arena (t : ParseTree) : Arena :=
  (t.walk.foldl Builder.step (Builder.start [])).arena

end ParseTree

def Tree.ofParse (grammar : String) (source : Text) (t : ParseTree) : Except BuildError Tree :=
  Tree.build grammar source t.walk

end LiveSyntax
