import LiveSyntax.Tree.Basic

/-!
# Cousins

Two notions of "the same kind of place elsewhere in the tree": the nodes on the same level below a common ancestor,
found level by level, and the nodes anywhere that agree with a node in kinds, text or depth.
-/

namespace LiveSyntax

inductive Which where
  | all
  /-- The first match that starts after the node, or else the first match. -/
  | next
  /-- The last match that starts before the node, or else the last match. -/
  | previous
  deriving DecidableEq, Repr

structure CousinFilter where
  sameKinds : Bool
  sameText : Bool
  sameDepth : Bool
  /-- How many kinds are compared, the node's own included; all of them if there is no limit. -/
  kindLimit : Option Nat
  which : Which
  deriving DecidableEq, Repr

namespace Tree

/-- The nodes `generations` levels below the given ones, left to right. -/
def levelBelow (t : Tree) (tops : List Nat) : (generations : Nat) → List Nat
  | 0 => tops
  | generations + 1 => levelBelow t (tops.flatMap t.children) generations

/-- The other nodes as deep as `i` below its ancestor `generations` levels up, left to right. -/
def cousins (t : Tree) (i generations : Nat) : List Nat :=
  if generations = 0 then []
  else
    match t.ancestor? i generations with
    | none => []
    | some common => (t.levelBelow [common] generations).filter (· != i)

/-- The kinds of a node and its ancestors, nearest first, up to a limit. -/
def kindChain (t : Tree) (limit : Option Nat) (i : Nat) : List String :=
  let chain := i :: t.ancestors i
  (match limit with
    | none => chain
    | some n => chain.take n).map t.kind

def resembles (t : Tree) (filter : CousinFilter) (i candidate : Nat) : Bool :=
  (!filter.sameDepth || t.depth candidate == t.depth i) &&
  (!filter.sameText || t.textOf candidate == t.textOf i) &&
  (!filter.sameKinds || t.kindChain filter.kindLimit candidate == t.kindChain filter.kindLimit i)

/-- Takes all of the matches, or the next or previous one from a byte on, round and round. -/
def pick (t : Tree) (which : Which) (start : Nat) (found : List Nat) : List Nat :=
  match which with
  | .all => found
  | .next => ((found.find? fun c => start < (t.span c).start).or found.head?).toList
  | .previous => ((found.reverse.find? fun c => (t.span c).start < start).or found.getLast?).toList

/-- The nodes that look like `i`, which is one of them. The root has no cousins. -/
def cousinsMatching (t : Tree) (i : Nat) (filter : CousinFilter) : List Nat :=
  if i = Arena.root then []
  else t.pick filter.which (t.span i).start (t.indices.filter (t.resembles filter i))

end Tree

end LiveSyntax
