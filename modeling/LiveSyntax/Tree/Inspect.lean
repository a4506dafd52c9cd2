import LiveSyntax.Tree.Basic

/-!
# Trees and nodes as text

A subtree is written one node a line, indented by depth, with kind, field and both positions. A node is described
together with the ancestors that have the same length, outermost first.
-/

namespace LiveSyntax

structure NodeFacts where
  kind : String
  field : Option String
  depth : Nat
  span : Span
  start : Position
  stop : Position
  deriving DecidableEq, Repr

def Position.renderStretch (start stop : Position) : String :=
  start.render ++ " → " ++ stop.render

def NodeFacts.pairs (facts : NodeFacts) : List (String × String) :=
  [("type", facts.kind)] ++ (facts.field.map ("field", ·)).toList ++
    [("depth", toString facts.depth), ("range", Position.renderStretch facts.start facts.stop)]

namespace Tree

def factsOf (t : Tree) (i : Nat) : NodeFacts :=
  let node := t.node i
  { kind := node.kind, field := node.field, depth := node.depth, span := node.span, start := node.start
    stop := node.stop }

/-- The ancestors, nearest first, up to the first one of another length. -/
def equalAncestors (t : Tree) (i : Nat) : List Nat :=
  (t.ancestors i).takeWhile fun a => t.length a == t.length i

def displayRoot (t : Tree) (i : Nat) : Nat :=
  (t.equalAncestors i).getLastD i

/-- The facts about a node and its ancestors of the same length, outermost first. -/
def facts (t : Tree) (i : Nat) : List NodeFacts :=
  ((i :: t.equalAncestors i).reverse).map t.factsOf

def renderNode (t : Tree) (base i : Nat) : String :=
  let node := t.node i
  let indent := String.ofList (List.replicate (2 * (node.depth - base)) ' ')
  let field := match node.field with
    | none => ""
    | some name => " [" ++ name ++ "]"
  indent ++ node.kind ++ field ++ "  " ++ Position.renderStretch node.start node.stop ++ "\n"

def render (t : Tree) (i : Nat) : String :=
  String.join ((t.subtree i).map (t.renderNode (t.depth i)))

end Tree

end LiveSyntax
