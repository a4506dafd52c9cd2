import LiveSyntax.Text.Coordinates
import LiveSyntax.Text.Quoted
import LiveSyntax.Tree.Arena

/-!
# Syntax trees

A `Tree` is a node table with the text that it was parsed from and the name of the grammar. Its root spans the whole
text. Trees never change: a parse makes a new one.
-/

namespace LiveSyntax

structure Tree extends Arena where
  grammar : String
  source : Text
  deriving DecidableEq, Repr, Inhabited

namespace Tree

def sourceLength (t : Tree) : Nat :=
  t.source.byteCount

/-- The text of a node; empty if its span does not cut the source between characters. -/
def textOf (t : Tree) (i : Nat) : Text :=
  (t.source.slice? (t.span i).start (t.span i).stop).getD []

def errorCount (t : Tree) : Nat :=
  (t.indices.filter fun i => (t.node i).error).length

def describe (t : Tree) : String :=
  "SyntaxTree \x7b grammar: " ++ Quoted.render t.grammar ++ ", source_len: " ++ toString t.sourceLength ++
    ", node_count: " ++ toString t.size ++ " \x7d"

def describeNode (t : Tree) (i : Nat) : String :=
  t.kind i ++ " " ++ (t.span i).render

end Tree

end LiveSyntax
